import CodeAtlas.Proofs.Indexing.Staleness
import CodeAtlas.Proofs.Schema.Reading
import Mathlib.Data.List.Dedup
/-!
# What a run counts of the schema

A run that stores a schema anew counts what it has read; one that finds the schema unchanged counts what is stored. What
is stored was read by the run that stored it last, from a text that has the fingerprint of the one found now
(`exists_holdsText`), but of several indexes with one name on one table the last is kept. So the two count the same
tables, columns and foreign keys, and they count the same indexes just if no name on a table is given to an index twice
(`told_indexes_eq_iff`).
-/

namespace CodeAtlas

namespace Schema

/-- What tells indexes apart in the store. -/
def Index.slot (i : Index) : String × String := (i.table, i.name)

theorem map_slot_lastIndexes (l : List Index) : (lastIndexes l).map Index.slot = (l.map Index.slot).dedup := by
  induction l with
  | nil => rfl
  | cons i rest ih =>
      have hlater : (rest.any fun j => j.table = i.table && j.name = i.name) = true ↔ i.slot ∈ rest.map Index.slot := by
        simp [Index.slot]
      rw [lastIndexes, List.map_cons]
      by_cases hmem : i.slot ∈ rest.map Index.slot
      · rw [if_pos (hlater.2 hmem), List.dedup_cons_of_mem hmem, ih]
      · rw [if_neg (mt hlater.1 hmem), List.dedup_cons_of_notMem hmem, List.map_cons, ih]

theorem length_lastIndexes_eq_iff (l : List Index) : (lastIndexes l).length = l.length ↔ (l.map Index.slot).Nodup := by
  have hlength : l.length = (l.map Index.slot).length := (List.length_map Index.slot).symm
  rw [← List.length_map Index.slot, map_slot_lastIndexes, hlength, ← List.dedup_eq_self]
  exact ⟨(List.dedup_sublist _).eq_of_length, fun h => by rw [h]⟩

theorem indexes_stored_ofSource (source : String) :
    (ofSource source).stored.indexes = lastIndexes (ofSource source).indexes := by
  have hknown := (wellFormed_ofSource source).indexes
  rw [stored, List.filter_eq_self.2 fun i hi => (table?_isSome_iff _).2 (hknown i hi)]

end Schema

namespace Indexing

/-- The schema file that a run looks at. -/
def Request.schemaFile? (q : Request) : Option SourceFile := q.options.schema.bind q.onTree.file?

/-- A run reads the text of the schema and stores it anew. -/
def StoresText (text : String) (s : Store) (q : Request) : Prop :=
  (∃ file, q.schemaFile? = some file ∧ file.text = text) ∧ ∃ summary, q.told s = some summary ∧ summary.rebuilt = true

/-- A run neither stores a schema anew nor removes it. -/
def LeavesSchema (s : Store) (q : Request) : Prop :=
  q.clears = false ∧ ∀ summary, q.told s = some summary → summary.rebuilt = false ∧ summary.missing = false

/-- Some run stored the text, and every later one left the schema alone. -/
def HoldsText (text : String) (requests : List Request) : Prop := Outstanding (StoresText text) LeavesSchema requests

section

variable {q : Request} {s after : Store} {text : String} {summary : SchemaSummary}

theorem Request.opened_of_not_clears (h : q.clears = false) (s : Store) : q.opened s = s := by
  rw [Request.opened, h]
  rfl

/-- A run that stores a schema anew tells the counts of what it has read. -/
theorem Performed.rebuilt (h : Performed q s after (some summary)) (hrebuilt : summary.rebuilt = true) :
    ∃ file path, q.schemaFile? = some file ∧ after.schema = (Schema.ofSource file.text).stored ∧
      summary = { SchemaSummary.ofSchema path (Schema.ofSource file.text) with
        rebuilt := true, warnings := (Schema.ofSource file.text).warnings } := by
  cases h with
  | refreshed d left path configured after _ step =>
      cases step with
      | absent => cases hrebuilt
      | removed => cases hrebuilt
      | unchanged => cases hrebuilt
      | refused => cases hrebuilt
      | rebuilt file found =>
          exact ⟨file, _, by rw [Request.schemaFile?, configured]; exact found, rfl, rfl⟩

/-- A run that finds the schema unchanged tells the counts of what is stored. -/
theorem Performed.unchanged (h : Performed q s after (some summary)) (hunchanged : summary.unchanged = true) :
    ∃ file path, q.schemaFile? = some file ∧
      s.note? Store.schemaFingerprint = some (fingerprint file.bytes) ∧ summary = .ofSchema path s.schema := by
  cases h with
  | refreshed d left path configured after _ step =>
      have hopened : q.opened s = s :=
        Request.opened_of_not_clears (Bool.or_eq_false_iff.1 (step.lazy_of_unchanged hunchanged)).1 s
      have hnotes : d.store.notes = s.notes := hopened ▸ left.notes
      have hschema : d.store.schema = s.schema := hopened ▸ left.schema
      cases step with
      | absent => exact absurd hunchanged (by simp [SchemaSummary.unchanged])
      | removed => exact absurd hunchanged (by simp [SchemaSummary.unchanged])
      | refused => exact absurd hunchanged (by simp [SchemaSummary.unchanged])
      | rebuilt => exact absurd hunchanged (by simp [SchemaSummary.unchanged])
      | unchanged file found lazy stored =>
          refine ⟨file, shownPath path, by rw [Request.schemaFile?, configured]; exact found, ?_, ?_⟩
          · rw [Store.note?, ← hnotes]
            exact stored
          · rw [hschema]

/-- A run that leaves the schema alone leaves it and its fingerprint as they are. -/
theorem Performed.left {told : Option SchemaSummary} (h : Performed q s after told) (hclears : q.clears = false)
    (hleft : ∀ summary, told = some summary → summary.rebuilt = false ∧ summary.missing = false) :
    after.schema = s.schema ∧ after.note? Store.schemaFingerprint = s.note? Store.schemaFingerprint := by
  have hopened := Request.opened_of_not_clears hclears s
  cases h with
  | unstarted => rw [hopened]; exact ⟨rfl, rfl⟩
  | unconfigured d left =>
      rw [hopened] at left
      refine ⟨left.schema, ?_⟩
      rw [Store.note?_setNote_of_ne _ _ (by decide), Store.note?, left.notes]
      rfl
  | refreshed d left path _ after summary step =>
      rw [hopened] at left
      have hkeeps := hleft summary rfl
      rw [Store.note?_setNote_of_ne _ _ (by decide)]
      have hnote : d.store.note? Store.schemaFingerprint = s.note? Store.schemaFingerprint := by
        rw [Store.note?, left.notes]
        rfl
      cases step with
      | absent => cases hkeeps.2
      | removed => cases hkeeps.2
      | unchanged => exact ⟨left.schema, hnote⟩
      | refused => exact ⟨left.schema, by rw [Store.note?_setNote_of_ne _ _ (by decide), hnote]⟩
      | rebuilt => cases hkeeps.1

theorem not_clears_of_note {key value : String} (h : (q.opened s).note? key = some value) : q.clears = false := by
  cases hclears : q.clears with
  | false => rfl
  | true =>
      rw [Request.opened, if_pos hclears] at h
      cases h

/-- A fingerprint that is kept after a run was stored by it, or the run left the schema alone. -/
theorem Performed.fingerprint_kept {told : Option SchemaSummary} {print : String} (h : Performed q s after told)
    (hprint : after.note? Store.schemaFingerprint = some print) :
    (∃ file summary, q.schemaFile? = some file ∧ fingerprint file.bytes = print ∧ told = some summary ∧
      summary.rebuilt = true) ∨
    (q.clears = false ∧ ∀ summary, told = some summary → summary.rebuilt = false ∧ summary.missing = false) := by
  cases h with
  | unstarted => exact Or.inr ⟨not_clears_of_note hprint, fun _ h => absurd h (by simp)⟩
  | unconfigured d left =>
      rw [Store.note?_setNote_of_ne _ _ (by decide), Store.note?, left.notes] at hprint
      exact Or.inr ⟨not_clears_of_note hprint, fun _ h => absurd h (by simp)⟩
  | refreshed d left path configured after summary step =>
      rw [Store.note?_setNote_of_ne _ _ (by decide)] at hprint
      cases step with
      | absent gone never =>
          rw [Store.note?_dropNote_of_ne _ (by decide), never] at hprint
          cases hprint
      | removed =>
          rw [withoutSchema, Store.note?_dropNote_of_ne _ (by decide), Store.note?_dropNote_self] at hprint
          cases hprint
      | unchanged file found lazy =>
          refine Or.inr ⟨(Bool.or_eq_false_iff.1 lazy).1, fun summary h => ?_⟩
          rw [← Option.some.inj h]
          exact ⟨rfl, rfl⟩
      | refused =>
          rw [Store.note?_setNote_of_ne _ _ (by decide), Store.note?, left.notes] at hprint
          refine Or.inr ⟨not_clears_of_note hprint, fun summary h => ?_⟩
          rw [← Option.some.inj h]
          exact ⟨rfl, rfl⟩
      | rebuilt file found =>
          rw [withSchema, Store.note?_dropNote_of_ne _ (by decide), Store.note?_setNote_self] at hprint
          refine Or.inl ⟨file, _, ?_, Option.some.inj hprint, rfl, rfl⟩
          rw [Request.schemaFile?, configured]
          exact found

end

section

variable {text : String} {requests : List Request}

/-- What is stored is what was read of the text that is held. -/
theorem schema_of_holdsText (h : HoldsText text requests) : (served requests).schema = (Schema.ofSource text).stored := by
  induction requests using List.reverseRecOn with
  | nil => exact absurd h not_outstanding_nil
  | append_singleton requests q ih =>
      have hperformed := performed_serve (standing_served requests) q
      rw [served_append]
      rcases outstanding_append.1 h with ⟨⟨file, hfile, htext⟩, summary, htold, hrebuilt⟩ | ⟨hbefore, hclears, hleft⟩
      · rw [htold] at hperformed
        obtain ⟨found, _, hfound, hschema, _⟩ := hperformed.rebuilt hrebuilt
        rw [hschema, Option.some.inj (hfound.symm.trans hfile), htext]
      · rw [(hperformed.left hclears hleft).1, ih hbefore]

/-- The fingerprint that is kept is that of a file with the text that is held. -/
theorem exists_holdsText {print : String} (h : (served requests).note? Store.schemaFingerprint = some print) :
    ∃ stored : SourceFile, fingerprint stored.bytes = print ∧ HoldsText stored.text requests := by
  induction requests using List.reverseRecOn with
  | nil => cases h
  | append_singleton requests q ih =>
      have hperformed := performed_serve (standing_served requests) q
      rw [served_append] at h
      rcases hperformed.fingerprint_kept h with ⟨file, summary, hfile, hprint, htold, hrebuilt⟩ | hleft
      · exact ⟨file, hprint, outstanding_append.2 (Or.inl ⟨⟨file, hfile, rfl⟩, summary, htold, hrebuilt⟩)⟩
      · rw [(hperformed.left hleft.1 hleft.2).2] at h
        obtain ⟨stored, hprint, hbefore⟩ := ih h
        exact ⟨stored, hprint, outstanding_append.2 (Or.inr ⟨hbefore, hleft⟩)⟩

end

/-- A run that finds the schema unchanged compares it with a text that some run has stored and that no run has replaced
since: the file has the fingerprint of that text. It counts the same tables, columns and foreign keys as any run that
stores this text, and the same indexes just if no two indexes in the text have one table and one name. -/
theorem told_indexes_eq_iff {later : List Request} {q : Request} {again : SchemaSummary}
    (hagain : q.told (served later) = some again) (hunchanged : again.unchanged = true) :
    ∃ file stored : SourceFile, q.schemaFile? = some file ∧ fingerprint stored.bytes = fingerprint file.bytes ∧
      HoldsText stored.text later ∧
      ∀ (earlier : List Request) (p : Request) (first : SchemaSummary), StoresText stored.text (served earlier) p →
        p.told (served earlier) = some first →
          again.tables = first.tables ∧ again.columns = first.columns ∧ again.foreignKeys = first.foreignKeys ∧
          (again.indexes = first.indexes ↔ ((Schema.ofSource stored.text).indexes.map Schema.Index.slot).Nodup) := by
  have hperformed := performed_serve (standing_served later) q
  rw [hagain] at hperformed
  obtain ⟨file, path, hfile, hnote, hcounts⟩ := hperformed.unchanged hunchanged
  obtain ⟨stored, hprint, hholds⟩ := exists_holdsText hnote
  refine ⟨file, stored, hfile, hprint, hholds, ?_⟩
  intro earlier p first ⟨⟨read, hread, htext⟩, summary, hsummary, hrebuilt⟩ hfirst
  have hstores := performed_serve (standing_served earlier) p
  rw [hfirst] at hstores
  rw [← Option.some.inj (hfirst.symm.trans hsummary)] at hrebuilt
  obtain ⟨found, path', hfound, _, hcounted⟩ := hstores.rebuilt hrebuilt
  rw [Option.some.inj (hfound.symm.trans hread), htext] at hcounted
  have hlast := Schema.indexes_stored_ofSource stored.text
  rw [hcounts, hcounted, schema_of_holdsText hholds]
  generalize Schema.ofSource stored.text = schema at hlast
  refine ⟨rfl, rfl, rfl, ?_⟩
  rw [← Schema.length_lastIndexes_eq_iff, ← hlast]
  exact Iff.rfl

/-! ## An index that is given twice -/

/-- The reference has an index of its own, and then it is given the same index again. -/
def repeatingTree : Tree :=
  holdingSchema "create_table \"posts\" do |t|\n  t.references \"user\"\nend\nadd_index \"posts\", [\"user_id\"]\n"

def storingRun : Request := .tree repeatingTree schemaOnly 0 .full

def rereadingRun : Request := .tree repeatingTree schemaOnly 0 .incremental

set_option maxRecDepth 100000 in
theorem storingRun_spec :
    ∃ file first again, storingRun.schemaFile? = some file ∧ rereadingRun.schemaFile? = some file ∧
      storingRun.told (served []) = some first ∧ first.rebuilt = true ∧ first.indexes = 2 ∧
      rereadingRun.told (served [storingRun]) = some again ∧ again.unchanged = true ∧ again.indexes = 1 := by
  have hruns :
      (storingRun.told (served [])).map (fun s => (s.rebuilt, s.indexes)) = some (true, 2) ∧
      (rereadingRun.told (served [storingRun])).map (fun s => (s.unchanged, s.indexes)) = some (true, 1) := by
    decide +kernel
  have hread : storingRun.schemaFile?.isSome = true ∧ rereadingRun.schemaFile? = storingRun.schemaFile? := by
    decide +kernel
  obtain ⟨file, hfile⟩ := Option.isSome_iff_exists.1 hread.1
  obtain ⟨first, hfirst, hcounted⟩ := Option.map_eq_some_iff.1 hruns.1
  obtain ⟨again, hagain, hcounts⟩ := Option.map_eq_some_iff.1 hruns.2
  exact ⟨file, first, again, hfile, hread.2.trans hfile, hfirst, congrArg Prod.fst hcounted, congrArg Prod.snd hcounted,
    hagain, congrArg Prod.fst hcounts, congrArg Prod.snd hcounts⟩

/-- A run that finds a text unchanged can count fewer indexes than the run that stored it. -/
theorem exists_told_indexes_ne :
    ¬ ∀ (earlier later : List Request) (p q : Request) (first again : SchemaSummary) (file : SourceFile),
      StoresText file.text (served earlier) p → p.told (served earlier) = some first → HoldsText file.text later →
      q.schemaFile? = some file → q.told (served later) = some again → again.unchanged = true →
        again.tables = first.tables ∧ again.columns = first.columns ∧ again.indexes = first.indexes ∧
          again.foreignKeys = first.foreignKeys := by
  intro hlaw
  obtain ⟨file, first, again, hfile, hsame, hfirst, hrebuilt, htwo, hagain, hunchanged, hone⟩ := storingRun_spec
  have hstores : StoresText file.text (served []) storingRun := ⟨⟨file, hfile, rfl⟩, first, hfirst, hrebuilt⟩
  have heq := (hlaw [] [storingRun] storingRun rereadingRun first again file hstores hfirst
    (outstanding_append.2 (Or.inl hstores)) hsame hagain hunchanged).2.2.1
  rw [htwo, hone] at heq
  exact absurd heq (by decide)

/-- The tables of the two runs are the same, and the indexes are not. -/
theorem told_indexes_eq_iff_repeated :
    ∃ first again, storingRun.told (served []) = some first ∧ first.rebuilt = true ∧
      rereadingRun.told (served [storingRun]) = some again ∧ again.unchanged = true ∧
      again.tables = first.tables ∧ again.indexes ≠ first.indexes := by
  obtain ⟨_, first, again, _, _, hfirst, hrebuilt, htwo, hagain, hunchanged, hone⟩ := storingRun_spec
  obtain ⟨_, stored, _, _, hholds, hcounts⟩ := told_indexes_eq_iff hagain hunchanged
  have hstores : StoresText stored.text (served []) storingRun :=
    (outstanding_append.1 (show HoldsText stored.text ([] ++ [storingRun]) from hholds)).resolve_right
      fun h => not_outstanding_nil h.1
  obtain ⟨htables, _⟩ := hcounts [] storingRun first hstores hfirst
  refine ⟨first, again, hfirst, hrebuilt, hagain, hunchanged, htables, ?_⟩
  rw [htwo, hone]
  decide

end Indexing

end CodeAtlas
