import CodeAtlas.Proofs.Projection.Statement
/-!
# Steps that carry out statements

`Says m o w a statements` says that the step `m` of a unit succeeds from the state `w` with the value `a`, and leaves
what the statements lead to. Steps compose as their statements do. Nodes are written and edges drawn by ids, statements
speak of identities: a node is referred to by an id that names it.
-/

namespace CodeAtlas.Projection

/-- The step succeeds with a value and does what the statements say. -/
def Says {α : Type} (m : Build α) (o : String) (w : Work) (a : α) (statements : List Statement) : Prop :=
  m.run.run w = (.ok a, applyAll o w statements)

/-- A step after one that succeeded. -/
theorem run_bind_of_ok {α β : Type} {m : Build α} {f : α → Build β} {w w' : Work} {a : α}
    (h : m.run.run w = (.ok a, w')) : (m >>= f).run.run w = (f a).run.run w' := by
  rw [ExceptT.run_bind, StateT.run_bind, h]
  rfl

theorem run_get (w : Work) : (get : Build Work).run.run w = (.ok w, w) := rfl

namespace Says

variable {α β : Type} {o : String} {w : Work}

theorem pure (o : String) (w : Work) (a : α) : Says (pure a) o w a [] := rfl

theorem bind {m : Build α} {f : α → Build β} {a : α} {b : β} {first second : List Statement}
    (hm : Says m o w a first) (hf : Says (f a) o (applyAll o w first) b second) :
    Says (m >>= f) o w b (first ++ second) := by
  rw [Says, run_bind_of_ok hm, hf, applyAll_append]

theorem bind_cons {m : Build α} {f : α → Build β} {a : α} {b : β} {s : Statement} {rest : List Statement}
    (hm : Says m o w a [s]) (hf : Says (f a) o (s.apply o w) b rest) : Says (m >>= f) o w b (s :: rest) :=
  hm.bind hf

/-- Giving another value says nothing. -/
theorem bind_pure {m : Build α} {a : α} {statements : List Statement} (hm : Says m o w a statements) (f : α → β) :
    Says (do let a ← m; return f a) o w (f a) statements := by
  have h := hm.bind (f := fun a => Pure.pure (f a)) (Says.pure o _ (f a))
  rw [List.append_nil] at h
  exact h

/-- Looking at the state says nothing. -/
theorem get_bind {f : Work → Build α} {a : α} {statements : List Statement} (hf : Says (f w) o w a statements) :
    Says (get >>= f) o w a statements := hf

end Says

variable {o : String} {w : Work}

/-- Writing a node says that there is such a node. -/
theorem says_writeNode (o : String) (w : Work) (n : NewNode) :
    Says (writeNode n) o w (w.graph.upsertNode n).2 [.declare n] := rfl

/-- The id that a write gives names the node written. -/
theorem names_writeNode (hw : w.Sound) (n : NewNode) :
    (Statement.apply o w (.declare n)).graph.Names (w.graph.upsertNode n).2 n.identity :=
  Graph.names_upsertNode_self hw.graph n

/-- A look-up of a node that is not there yet, and its placeholder. -/
theorem run_resolve (hw : w.Sound) (k : NodeKind) (key : String) :
    (resolve k key).run.run w =
      (.ok (w.graph.ensureNode k key).2, { w with graph := (w.graph.ensureNode k key).1 }) := by
  cases hl : w.cache.lookup k key with
  | some id =>
      have hname := hw.cache.lookup hl
      have hrun : (resolve k key).run.run w = (.ok id, w) := by
        rw [resolve, run_bind_of_ok (run_get w)]
        simp only [hl]
        rfl
      have hensure := Graph.ensureNode_of_names (i := (k, key)) hw.graph hname
      dsimp only at hensure
      rw [hrun, hensure]
  | none =>
      rw [resolve, run_bind_of_ok (run_get w)]
      simp only [hl]
      rfl

/-- Where both ends are there, relating them writes the edge between their ids. -/
theorem relate_eq_putEdge {g : Graph} (hg : g.WellFormed) {l : Link} {a b : Int} (ha : g.Names a l.source)
    (hb : g.Names b l.target) (locations : List String) (metadata : Json) :
    g.relate o l locations metadata =
      g.putEdge {
        kind := l.kind, source := a, target := b, locations := locations, metadata := metadata, origin := some o } := by
  simp only [Graph.relate, Graph.ensureNode_of_names hg ha, Graph.ensureNode_of_names hg hb]

/-- An edge that is written between named nodes says that they are related. -/
theorem says_writeEdge (hw : w.Sound) {e : NewEdge} {s t : Identity} (hs : w.graph.Names e.source s)
    (ht : w.graph.Names e.target t) :
    Says (writeEdge o e) o w () [.relate ⟨e.kind, s, t⟩ e.locations e.metadata] := by
  have hrelate := relate_eq_putEdge (o := o) (l := ⟨e.kind, s, t⟩) hw.graph hs ht e.locations e.metadata
  have hput : w.graph.upsertEdge { e with origin := some o } = .ok (w.graph.putEdge { e with origin := some o }) :=
    Graph.upsertEdge_eq_putEdge (n := { e with origin := some o }) hs ht
  rw [Says, writeEdge, run_bind_of_ok (run_get w)]
  simp only [hput, applyAll_cons, applyAll_nil, Statement.apply, hrelate]
  rfl

/-- An edge to a node that is looked up says that the two are related, whether or not the node is there. -/
theorem says_resolve_writeEdge (hw : w.Sound) {e : Int → NewEdge} {k : NodeKind} {key : String} {s : Identity}
    {kind : EdgeKind} {locations : List String} {metadata : Json} {a : Int}
    (he : ∀ id, e id =
      { kind := kind, source := a, target := id, locations := locations, metadata := metadata })
    (hs : w.graph.Names a s) :
    Says (resolve k key >>= fun id => writeEdge o (e id)) o w ()
      [.relate ⟨kind, s, (k, key)⟩ locations metadata] := by
  have hg := hw.graph
  let w₁ : Work := { w with graph := (w.graph.ensureNode k key).1 }
  have hw₁ : w₁.Sound :=
    ⟨hg.ensureNode k key, hw.cache.mono fun _ _ h => h.ensureNode hg (k, key)⟩
  have hs₁ : w₁.graph.Names a s := hs.ensureNode hg (k, key)
  have ht₁ : w₁.graph.Names (w.graph.ensureNode k key).2 (k, key) := Graph.names_ensureNode_self hg (k, key)
  have hwrite := says_writeEdge (o := o) hw₁ (e := e (w.graph.ensureNode k key).2) (s := s) (t := (k, key))
    (by rw [he]; exact hs₁) (by rw [he]; exact ht₁)
  rw [Says, run_bind_of_ok (run_resolve hw k key), hwrite, he]
  -- relating the ends again after the look-up changes nothing
  have hrelate : w₁.graph.relate o ⟨kind, s, (k, key)⟩ locations metadata =
      w.graph.relate o ⟨kind, s, (k, key)⟩ locations metadata := by
    rw [relate_eq_putEdge hw₁.graph (l := ⟨kind, s, (k, key)⟩) hs₁ ht₁]
    simp only [Graph.relate, Graph.ensureNode_of_names hg hs]
    rfl
  simp only [applyAll_cons, applyAll_nil, Statement.apply, hrelate]
  rfl

theorem says_resolve_writeEdge_bind {α : Type} (hw : w.Sound) {e : Int → NewEdge} {k : NodeKind} {key : String}
    {s : Identity} {kind : EdgeKind} {locations : List String} {metadata : Json} {a : Int} {f : Unit → Build α} {b : α}
    {rest : List Statement}
    (he : ∀ id, e id =
      { kind := kind, source := a, target := id, locations := locations, metadata := metadata })
    (hs : w.graph.Names a s)
    (hf : Says (f ()) o (Statement.apply o w (.relate ⟨kind, s, (k, key)⟩ locations metadata)) b rest) :
    Says (resolve k key >>= fun id => writeEdge o (e id) >>= f) o w b
      (.relate ⟨kind, s, (k, key)⟩ locations metadata :: rest) := by
  rw [← bind_assoc]
  exact (says_resolve_writeEdge hw he hs).bind_cons hf

end CodeAtlas.Projection
