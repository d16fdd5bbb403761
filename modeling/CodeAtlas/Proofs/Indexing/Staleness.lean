import CodeAtlas.Proofs.Indexing.Refreshing
/-!
# The note about a schema that cannot be read

A run that refuses the schema file takes a note of it, and one that stores the file anew or finds it gone drops the note.
A run that finds the stored file unchanged leaves the note alone. So once a refused file has been put back to what is
stored, the note stays although nothing is wrong any more: it is there if some run refused the file and all later ones
passed over it (`Flagged`), and that is the only case in which it does not tell what the last run found
(`schemaError_iff_flagged`).
-/

namespace CodeAtlas

/-- Whether the schema file was found to be the one that is stored. -/
def SchemaSummary.unchanged (s : SchemaSummary) : Bool := !s.rebuilt && !s.missing && s.error.isNone

theorem SchemaSummary.not_unchanged_of_error {summary : SchemaSummary} (h : summary.error.isSome = true) :
    ¬ summary.unchanged = true := by
  intro hunchanged
  simp only [unchanged, Bool.and_eq_true, Option.isNone_iff_eq_none] at hunchanged
  rw [hunchanged.2] at h
  exact absurd h (by simp)

namespace Indexing

def Refuses (s : Store) (q : Request) : Prop := ∃ summary, q.told s = some summary ∧ summary.error.isSome = true

/-- A run finds the schema unchanged, or does not look at it and does not start from an empty index. -/
def PassesOver (s : Store) (q : Request) : Prop :=
  match q.told s with
  | some summary => summary.unchanged = true
  | none => q.clears = false

/-- Some run refused the schema, and every later one passed over it. -/
def Flagged (requests : List Request) : Prop := Outstanding Refuses PassesOver requests

section

variable {t : Tree} {path : String} {force : Bool} {d : Desk} {after : Store} {summary : SchemaSummary}

theorem Refreshed.schemaError (h : Refreshed t path force d after summary) :
    (after.note? Store.schemaError).isSome = true ↔
      summary.error.isSome = true ∨
        (summary.unchanged = true ∧ (d.store.note? Store.schemaError).isSome = true) := by
  cases h with
  | absent => simp [SchemaSummary.unchanged]
  | removed => simp [SchemaSummary.unchanged, withoutSchema]
  | unchanged => simp [SchemaSummary.unchanged, SchemaSummary.ofSchema]
  | refused => simp
  | rebuilt => simp [SchemaSummary.unchanged, SchemaSummary.ofSchema, withSchema]

/-- A schema is found unchanged only if nothing asks for it to be stored anew. -/
theorem Refreshed.lazy_of_unchanged (h : Refreshed t path force d after summary)
    (hunchanged : summary.unchanged = true) : force = false := by
  cases h with
  | absent => exact absurd hunchanged (by simp [SchemaSummary.unchanged])
  | removed => exact absurd hunchanged (by simp [SchemaSummary.unchanged])
  | unchanged _ _ lazy _ => exact lazy
  | refused => exact absurd hunchanged (by simp [SchemaSummary.unchanged])
  | rebuilt => exact absurd hunchanged (by simp [SchemaSummary.unchanged])

end

section

variable {q : Request} {s after : Store}

theorem Performed.schemaError_of_told {summary : SchemaSummary} (h : Performed q s after (some summary)) :
    (after.note? Store.schemaError).isSome = true ↔
      summary.error.isSome = true ∨ (summary.unchanged = true ∧ (s.note? Store.schemaError).isSome = true) := by
  cases h with
  | refreshed d left path _ after _ step =>
      have hnote : summary.unchanged = true → d.store.note? Store.schemaError = s.note? Store.schemaError := by
        intro hunchanged
        have hlazy := step.lazy_of_unchanged hunchanged
        rw [Bool.or_eq_false_iff] at hlazy
        rw [Store.note?, left.notes, Request.opened, hlazy.1]
        rfl
      rw [Store.note?_setNote_of_ne _ _ (by decide), step.schemaError]
      refine or_congr_right (and_congr_right fun hunchanged => ?_)
      rw [hnote hunchanged]

theorem Performed.schemaError_of_untold (h : Performed q s after none) :
    (after.note? Store.schemaError).isSome = true ↔
      (q.clears = false ∧ (s.note? Store.schemaError).isSome = true) := by
  have hopened : (after.note? Store.schemaError) = (q.opened s).note? Store.schemaError := by
    cases h with
    | unstarted => rfl
    | unconfigured d left =>
        rw [Store.note?_setNote_of_ne _ _ (by decide), Store.note?, left.notes]
        rfl
  rw [hopened, Request.opened]
  cases q.clears with
  | false => simp
  | true => simp [Store.clear, Store.note?]

/-- The note is there after a run that tells an error, and after one that passes over the schema if it was there
before. -/
theorem schemaError_serve (hs : Standing s) (q : Request) :
    ((q.serve s).note? Store.schemaError).isSome = true ↔
      Refuses s q ∨ ((s.note? Store.schemaError).isSome = true ∧ PassesOver s q) := by
  have hperformed := performed_serve hs q
  unfold Refuses PassesOver
  cases htold : q.told s with
  | none =>
      rw [htold] at hperformed
      rw [hperformed.schemaError_of_untold]
      simp [and_comm]
  | some summary =>
      rw [htold] at hperformed
      rw [hperformed.schemaError_of_told]
      simp [and_comm]

end

/-- After any runs the note about the schema is there if some run refused the schema file and all later ones passed over
it. After a run that looks at the schema the note tells whether that run found an error, unless the run finds the schema
unchanged and the note is left from before. -/
theorem schemaError_iff_flagged (requests : List Request) :
    (((served requests).note? Store.schemaError).isSome = true ↔ Flagged requests) ∧
    ∀ (q : Request) (summary : SchemaSummary), q.told (served requests) = some summary →
      ((((served (requests ++ [q])).note? Store.schemaError).isSome = true ↔ summary.error.isSome = true) ↔
        ¬ (summary.unchanged = true ∧ Flagged requests)) := by
  have hflag : ((served requests).note? Store.schemaError).isSome = true ↔ Flagged requests := by
    induction requests using List.reverseRecOn with
    | nil => exact ⟨fun h => absurd h (by decide), fun h => absurd h not_outstanding_nil⟩
    | append_singleton requests q ih =>
        rw [served_append, schemaError_serve (standing_served requests), ih]
        exact outstanding_append.symm
  refine ⟨hflag, ?_⟩
  intro q summary htold
  have hperformed := performed_serve (standing_served requests) q
  rw [htold] at hperformed
  rw [served_append, hperformed.schemaError_of_told, hflag]
  constructor
  · intro hlaw hleft
    exact SchemaSummary.not_unchanged_of_error (hlaw.1 (Or.inr hleft)) hleft.1
  · intro hnot
    exact or_iff_left hnot

/-! ## A schema that is put back -/

def holdingSchema (text : String) : Tree := Tree.write { root := "/app" } ["db", "schema.rb"] ⟨Text.encode text, 0⟩

def describedTree : Tree := holdingSchema "create_table \"users\" do |t|\nend\n"

/-- The schema file is looked at, and is none of the files that are indexed. -/
def schemaOnly : IndexOptions := { schema := some "db/schema.rb", exclude := ["db/"] }

/-- A schema is stored; then its file cannot be read. -/
def breakingRuns : List Request :=
  [.tree describedTree schemaOnly 0 .full, .tree (holdingSchema "create_table\n") schemaOnly 0 .incremental]

/-- The file is put back to what is stored. -/
def mendingRun : Request := .tree describedTree schemaOnly 0 .incremental

set_option maxRecDepth 100000 in
/-- The file was refused, and the run after it was put back finds the schema unchanged. -/
theorem mendingRun_spec :
    ((served breakingRuns).note? Store.schemaError).isSome = true ∧
      ∃ summary, mendingRun.told (served breakingRuns) = some summary ∧ summary.unchanged = true ∧
        summary.error = none := by
  have hruns : ((served breakingRuns).note? Store.schemaError).isSome = true ∧
      (mendingRun.told (served breakingRuns)).map (fun s => (s.unchanged, s.error)) = some (true, none) := by
    decide +kernel
  obtain ⟨summary, hsummary, hpair⟩ := Option.map_eq_some_iff.1 hruns.2
  exact ⟨hruns.1, summary, hsummary, congrArg Prod.fst hpair, congrArg Prod.snd hpair⟩

/-- The note can be there after a run that looked at the schema and found no error. -/
theorem exists_schemaError_without_error :
    ¬ ∀ (path : String) (requests : List Request) (q : Request) (summary : SchemaSummary),
      (∀ p ∈ requests ++ [q], p.options.schema = some path) → q.told (served requests) = some summary →
        (((served (requests ++ [q])).note? Store.schemaError).isSome = true ↔ summary.error.isSome = true) := by
  intro hlaw
  obtain ⟨hbefore, summary, htold, hunchanged, herror⟩ := mendingRun_spec
  have hperformed := performed_serve (standing_served breakingRuns) mendingRun
  rw [htold] at hperformed
  have hholds := hlaw "db/schema.rb" breakingRuns mendingRun summary (by decide) htold
  rw [served_append, hperformed.schemaError_of_told, herror] at hholds
  exact absurd (hholds.1 (Or.inr ⟨hunchanged, hbefore⟩)) (by simp)

/-- The schema is refused by the second run; the third finds it unchanged and tells no error, and the note stays. -/
theorem schemaError_iff_flagged_mending :
    Flagged breakingRuns ∧ ∃ summary, mendingRun.told (served breakingRuns) = some summary ∧ summary.error = none ∧
      ¬ (((served (breakingRuns ++ [mendingRun])).note? Store.schemaError).isSome = true ↔
        summary.error.isSome = true) := by
  obtain ⟨hflag, hlaw⟩ := schemaError_iff_flagged breakingRuns
  obtain ⟨hbefore, summary, htold, hunchanged, herror⟩ := mendingRun_spec
  refine ⟨hflag.1 hbefore, summary, htold, herror, ?_⟩
  intro hholds
  exact (hlaw mendingRun summary htold).1 hholds ⟨hunchanged, hflag.1 hbefore⟩

end Indexing

end CodeAtlas
