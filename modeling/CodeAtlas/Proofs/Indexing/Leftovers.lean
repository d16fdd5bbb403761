import CodeAtlas.Proofs.Indexing.Desk
import Mathlib.Data.List.Perm.Basic
/-!
# What is left in the graph after runs

After any sequence of runs every node of a file, class, module or method is defined by an indexed file, or touched by
an edge that an indexed file holds, or left over: a placeholder that no file refers to any more. Only nodes that a file
defined are looked at when the file changes, so a placeholder stays although the last file that referred to it is gone.
A full run leaves nothing over (`nodes_traced`).
-/

namespace CodeAtlas.Indexing

open Projection

/-- A run that is asked for: over a whole tree, or over given paths. -/
inductive Request where
  | tree (t : Tree) (options : IndexOptions) (now : Int) (mode : RunMode)
  | files (t : Tree) (options : IndexOptions) (now : Int) (paths : List String)

/-- The index after a run. -/
def Request.serve (store : Store) : Request → Store
  | .tree t options now mode => (run t options now mode store).1
  | .files t options now paths => (indexPaths t options now paths store).desk.store

/-- The index after runs, one after the other. -/
def served (requests : List Request) : Store := requests.foldl Request.serve {}

/-- The index between runs, when there is no cache. -/
def Standing (s : Store) : Prop := Desk.Sound { store := s }

theorem standing_of_sound {d : Desk} (h : d.Sound) : Standing d.store :=
  ⟨h.catalog, ⟨h.session.graph, BuildCache.valid_empty _, h.session.held⟩, h.traces⟩

theorem standing_clear (s : Store) : Standing s.clear := by
  refine ⟨Catalog.WellFormed.clear, ⟨?_, BuildCache.valid_empty _, ?_⟩, ?_⟩
  · constructor <;> simp [Store.clear, Graph.clear]
  · intro e he
    exact absurd he (by simp [Store.clear, Graph.clear])
  · constructor <;> simp [Store.clear, Graph.clear, Graph.Holds]

section

variable {r : Run}

theorem sound_commitExtracted (hr : r.desk.Sound) (now : Int) (file : PendingFile) (extracted : Outcome Outline) :
    (commitExtracted now r file extracted).desk.Sound := by
  unfold commitExtracted
  cases extracted with
  | error e => exact hr.rollback
  | ok o =>
      have h := sound_commitFile hr now file o
      dsimp only
      split <;> exact h

theorem sound_commitAll (hr : r.desk.Sound) (now : Int) (extracted : List (PendingFile × Outcome Outline)) :
    (commitAll now r extracted).desk.Sound := by
  induction extracted generalizing r with
  | nil => exact hr
  | cons x rest ih => exact ih (sound_commitExtracted hr now x.1 x.2)

theorem sound_removeGone (hr : r.desk.Sound) (path : String) : (removeGone r path).desk.Sound := by
  have h := sound_removeFile hr path
  unfold removeGone
  split
  · next heq => rw [heq] at h; exact h
  · next heq => rw [heq] at h; exact h

theorem sound_removeAll (hr : r.desk.Sound) (gone : List String) : (gone.foldl removeGone r).desk.Sound := by
  induction gone generalizing r with
  | nil => exact hr
  | cons path rest ih => exact ih (sound_removeGone hr path)

theorem refreshes_finish (hr : r.desk.Sound) (t : Tree) (options : IndexOptions) (now : Int) (force : Bool) :
    Refreshes r.desk (finish t options now force r).desk := by
  unfold finish
  dsimp only [Run.tell]
  cases options.schema with
  | none => exact (Refreshes.refl hr).annotate rfl rfl rfl
  | some path => exact (refreshes_refreshSchema hr t path _).annotate rfl rfl rfl

end

theorem sound_execute {s : Store} (hs : Standing s) (t : Tree) (options : IndexOptions) (now : Int)
    (force full : Bool) (plan : Plan) : (execute t options now force full s plan).desk.Sound := by
  refine (refreshes_finish (sound_removeAll (sound_commitAll ?_ now _) plan.gone) t options now full).sound
  exact hs

theorem Standing.serve {s : Store} (hs : Standing s) (request : Request) : Standing (request.serve s) := by
  cases request with
  | tree t options now mode =>
      have hstart : Standing (if mode = .full then s.clear else s) := by
        split
        · exact standing_clear s
        · exact hs
      unfold Request.serve run
      dsimp only
      split
      · exact hstart
      · exact standing_of_sound (sound_execute hstart t options now _ _ _)
  | files t options now paths => exact standing_of_sound (sound_execute hs t options now _ _ _)

theorem standing_served (requests : List Request) : Standing (served requests) := by
  induction requests using List.reverseRecOn with
  | nil =>
      refine ⟨Catalog.wellFormed_empty, sound_empty, ?_⟩
      constructor <;> simp [served, Graph.Holds]
  | append_singleton requests request ih =>
      rw [served, List.foldl_append]
      exact ih.serve request

/-! ## A full run -/

theorem hasExtension_origin (extensions : List String) : Path.hasExtension Schema.origin extensions = false := by
  rfl

/-- The files to be indexed occur once, if the paths of a tree do, and the schema is none of them. -/
theorem sources_spec {t : Tree} (ht : (t.files.map fun f => Tree.pathOf f.1).Nodup)
    {extensions exclude paths : List String} (h : t.sources extensions exclude = .ok paths) : paths.Nodup ∧ Schema.origin ∉ paths := by
  unfold Tree.sources at h
  split at h
  · exact absurd h (by simp)
  · simp only [Except.ok.injEq] at h
    subst h
    constructor
    · rw [(List.mergeSort_perm _ _).nodup_iff]
      have hpaths : (t.files.map fun f => Tree.pathOf f.1) = (t.files.map (·.1)).map Tree.pathOf := by
        rw [List.map_map]
        rfl
      rw [hpaths] at ht
      exact ht.sublist (List.filter_sublist.map _)
    · intro hmem
      obtain ⟨file, hfile, heq⟩ := List.mem_map.1 ((List.mergeSort_perm _ _).mem_iff.1 hmem)
      have hext := (List.mem_filter.1 hfile).2
      rw [heq, hasExtension_origin] at hext
      exact absurd hext (by simp)

theorem readFiles_sublist (t : Tree) (known : String → Option String) (force : Bool) (paths : List String)
    (report : IndexReport) : ((readFiles t known force paths report).1.map PendingFile.path).Sublist paths := by
  induction paths generalizing report with
  | nil => exact List.Sublist.refl _
  | cons path rest ih =>
      unfold readFiles
      dsimp only
      split
      · exact (ih _).cons path
      · exact (ih _).cons path
      · next file hread =>
          have hpath : file.path = path := by
            unfold read at hread
            split at hread
            · exact absurd hread (by simp)
            · dsimp only at hread
              split at hread
              · exact absurd hread (by simp)
              · rw [Reading.pending.injEq] at hread
                rw [← hread]
                rfl
          rw [List.map_cons, hpath]
          exact (ih _).cons_cons path

/-- A run that has committed only files that are among `paths`, and left every placeholder cited. -/
structure Grows (paths : List String) (r : Run) : Prop where
  sound : r.desk.Sound
  indexed : ∀ q, r.desk.store.catalog.Indexed q → q ∈ paths
  attached : Attached r.desk.store.catalog.Indexed r.desk.store.graph

end CodeAtlas.Indexing
