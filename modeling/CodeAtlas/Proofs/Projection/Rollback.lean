import CodeAtlas.Proofs.Projection.Cache
/-!
# Taking back what a unit did to the cache

A unit records nodes among what is pending, and a node that it deletes it forgets in both layers. So rolling back takes
every record back, and nothing that was forgotten returns: a node that was forgotten since the last commit is looked up
in vain, also if it has been recorded again, and any other is answered as right after the commit
(`lookup_rollback_perform`).
-/

namespace CodeAtlas.BuildCache

/-- What a unit does to the cache of its run. -/
inductive Call where
  | record (kind : NodeKind) (key : String) (id : Int)
  | forget (kind : NodeKind) (key : String)
deriving Repr, DecidableEq

/-- The cache after a call. -/
def Call.apply (c : BuildCache) : Call → BuildCache
  | .record kind key id => c.record kind key id
  | .forget kind key => c.forget kind key

/-- The cache after calls in turn. -/
def perform (c : BuildCache) (calls : List Call) : BuildCache := calls.foldl Call.apply c

section

variable (c : BuildCache) (kind : NodeKind) (key : String)

theorem perform_cons (call : Call) (calls : List Call) : c.perform (call :: calls) = (call.apply c).perform calls := rfl

theorem lookup_rollback : c.rollback.lookup kind key = c.committed.get? kind key := by
  simp [lookup, rollback, NodeIds.get?]

theorem committed_commit : c.commit.committed.get? kind key = c.commit.lookup kind key := by
  rw [← lookup_rollback]
  rfl

/-- Nothing but forgetting a node changes what is committed for it. -/
theorem Call.committed_apply (call : Call) :
    (call.apply c).committed.get? kind key =
      if call = .forget kind key then none else c.committed.get? kind key := by
  cases call with
  | record kind' key' id => rw [if_neg (by simp)]; rfl
  | forget kind' key' =>
      rw [Call.apply, BuildCache.forget, NodeIds.get?_erase]
      refine if_congr ?_ rfl rfl
      rw [Prod.mk.injEq, Call.forget.injEq, eq_comm (a := kind), eq_comm (a := key)]

/-- What is committed for a node after calls: nothing if it was forgotten by any of them, whatever came later. -/
theorem committed_perform (calls : List Call) :
    (c.perform calls).committed.get? kind key =
      if .forget kind key ∈ calls then none else c.committed.get? kind key := by
  induction calls generalizing c with
  | nil => rw [if_neg List.not_mem_nil]; rfl
  | cons call rest ih =>
      rw [perform_cons, ih, Call.committed_apply]
      by_cases hlater : Call.forget kind key ∈ rest
      · rw [if_pos hlater, if_pos (List.mem_cons_of_mem _ hlater)]
      · rw [if_neg hlater]
        refine if_congr ?_ rfl rfl
        rw [List.mem_cons, or_iff_left hlater, eq_comm]

end

/-- After a commit and any calls, rolling back makes the cache answer for every node what it answered right after the
commit, unless the node was forgotten by one of the calls, for which it then answers nothing; a new cache has no
answers to return to. So it returns to the commit as a whole just if no node that was there has been forgotten. -/
theorem lookup_rollback_perform (c : BuildCache) (calls : List Call) :
    (∀ kind key, (c.commit.perform calls).rollback.lookup kind key =
      if .forget kind key ∈ calls then none else c.commit.lookup kind key) ∧
    (∀ kind key, (({} : BuildCache).perform calls).rollback.lookup kind key = none) ∧
    ((∀ kind key, (c.commit.perform calls).rollback.lookup kind key = c.commit.lookup kind key) ↔
      ∀ kind key, .forget kind key ∈ calls → c.commit.isBuilt kind key = false) := by
  have hback : ∀ kind key, (c.commit.perform calls).rollback.lookup kind key =
      if .forget kind key ∈ calls then none else c.commit.lookup kind key := by
    intro kind key
    rw [lookup_rollback, committed_perform, committed_commit]
  refine ⟨hback, ?_, ?_⟩
  · intro kind key
    rw [lookup_rollback, committed_perform]
    exact ite_self none
  · refine forall₂_congr fun kind key => ?_
    rw [hback, isBuilt, Option.isSome_eq_false_iff, Option.isNone_iff_eq_none, ite_eq_right_iff]
    exact imp_congr_right fun _ => eq_comm

/-- A class that was committed is forgotten; rolling back does not bring it back. -/
theorem exists_lookup_rollback_ne :
    ¬ ∀ (c : BuildCache) (calls : List Call) (kind : NodeKind) (key : String),
      (c.commit.perform calls).rollback.lookup kind key = c.commit.lookup kind key := by
  intro hlaw
  have hlost := hlaw (({} : BuildCache).record .classDecl "A" 1) [.forget .classDecl "A"] .classDecl "A"
  revert hlost
  decide

end CodeAtlas.BuildCache
