/-
  O2Fabric.Lib.StableSort

  A stable sort under an order that ties exactly what has one key.  What has one key
  stays in the order it came in (`filter_insertionSort`), so two such items stand
  side by side after the sort exactly when nothing of their key came between them
  before it (`adjacent_insertionSort`).  Where no key comes twice, how the items came
  does not matter; where one does, two of its items can be told by it.
-/

import Mathlib.Data.List.Sort

namespace O2Fabric.StableSort

universe u v

variable {α : Type u} {κ : Type v} [DecidableEq κ] {r : α → α → Prop} {key : α → κ} {l : List α}

/-- Two items are tied exactly if they have one key. -/
def Ties (r : α → α → Prop) (key : α → κ) : Prop := ∀ a b, r a b ∧ r b a ↔ key a = key b

/-- Two items of one key have nothing of that key between them, and this holds of
    them. -/
def Neighbours (key : α → κ) (q : α → α → Prop) (l : List α) : Prop :=
  ∃ before a mid b after, l = before ++ a :: (mid ++ b :: after) ∧ key a = key b ∧ q a b ∧
    ∀ c ∈ mid, key c ≠ key a

/-- What is left of items of one key with nothing of that key between them. -/
theorem filter_split {before mid after : List α} {a b : α} (hkey : key a = key b)
    (hmid : ∀ c ∈ mid, key c ≠ key a) :
    (before ++ a :: (mid ++ b :: after)).filter (fun c => decide (key c = key a))
      = before.filter (fun c => decide (key c = key a))
        ++ a :: b :: after.filter (fun c => decide (key c = key a)) := by
  rw [hkey] at hmid
  simpa [List.filter_append, hkey] using hmid

/-- Where a key comes twice, two items of it are neighbours. -/
theorem exists_neighbours (h : ¬ (l.map key).Nodup) : Neighbours key (fun _ _ => True) l := by
  induction l with
  | nil => exact absurd List.nodup_nil h
  | cons x l ih =>
    by_cases hrest : (l.map key).Nodup
    · -- the first item's key comes again: its first time there is the neighbour
      have hagain : key x ∈ l.map key := by
        by_contra hnot
        exact h (List.nodup_cons.mpr ⟨hnot, hrest⟩)
      have hsome : (l.filter fun c => decide (key c = key x)) ≠ [] := by
        obtain ⟨c, hc, hkey⟩ := List.mem_map.mp hagain
        exact List.ne_nil_of_mem (List.mem_filter.mpr ⟨hc, decide_eq_true hkey⟩)
      obtain ⟨b, others, hcons⟩ := List.exists_cons_of_ne_nil hsome
      obtain ⟨mid, after, hl, hmid, hb, -⟩ := List.filter_eq_cons_iff.mp hcons
      refine ⟨[], x, mid, b, after, congrArg (x :: ·) hl, (of_decide_eq_true hb).symm, trivial, ?_⟩
      intro c hc
      simpa using hmid c hc
    · obtain ⟨before, a, mid, b, after, hl, hkey, -, hmid⟩ := ih hrest
      exact ⟨x :: before, a, mid, b, after, congrArg (x :: ·) hl, hkey, trivial, hmid⟩

section

variable [DecidableRel r] [Std.Total r] [IsTrans α r]

omit [Std.Total r] [IsTrans α r] in
/-- What has one key stays in the order it came in. -/
theorem filter_insertionSort (hties : Ties r key) (l : List α) (k : κ) :
    (l.insertionSort r).filter (fun a => decide (key a = k))
      = l.filter fun a => decide (key a = k) := by
  have htied : (l.filter fun a => decide (key a = k)).Pairwise r := by
    apply List.pairwise_of_forall_mem_list
    intro a ha b hb
    have ha := of_decide_eq_true (List.mem_filter.mp ha).2
    have hb := of_decide_eq_true (List.mem_filter.mp hb).2
    exact ((hties a b).mpr (ha.trans hb.symm)).1
  have hsub := (List.sublist_insertionSort htied List.filter_sublist).filter
    fun a => decide (key a = k)
  rw [List.filter_filter] at hsub
  simp only [Bool.and_self] at hsub
  exact (hsub.eq_of_length ((List.perm_insertionSort r l).filter _).length_eq.symm).symm

omit [DecidableEq κ] in
/-- Where nothing is tied but with itself, the order the items came in does not matter. -/
theorem insertionSort_eq_of_perm {l' : List α} (hperm : l'.Perm l)
    (hself : ∀ a ∈ l, ∀ b ∈ l, r a b → r b a → a = b) : l'.insertionSort r = l.insertionSort r := by
  apply List.Perm.eq_of_pairwise
  · intro a b ha hb hab hba
    exact hself a (hperm.mem_iff.mp ((List.mem_insertionSort r).mp ha)) b
      ((List.mem_insertionSort r).mp hb) hab hba
  · exact List.pairwise_insertionSort r l'
  · exact List.pairwise_insertionSort r l
  · exact (List.perm_insertionSort r l').trans (hperm.trans (List.perm_insertionSort r l).symm)

omit [DecidableEq κ] in
/-- Where no key comes twice, the order the items came in does not matter. -/
theorem insertionSort_congr (hties : Ties r key) {l' : List α} (hperm : l'.Perm l)
    (hnodup : (l.map key).Nodup) : l'.insertionSort r = l.insertionSort r :=
  insertionSort_eq_of_perm hperm fun a ha b hb hab hba =>
    List.inj_on_of_nodup_map hnodup ha hb ((hties a b).mp ⟨hab, hba⟩)

/-- Items of one key stand side by side after the sort exactly if they were
    neighbours before it. -/
theorem adjacent_insertionSort (hties : Ties r key) (q : α → α → Prop) (l : List α) :
    (∃ before a b after, l.insertionSort r = before ++ a :: b :: after ∧ key a = key b ∧ q a b) ↔
      Neighbours key q l := by
  constructor
  · rintro ⟨before, a, b, after, hsorted, hkey, hq⟩
    have hfilter := filter_insertionSort hties l (key a)
    have hsplit := @filter_split α κ _ key before [] after a b hkey (List.forall_mem_nil _)
    rw [hsorted] at hfilter
    rw [List.nil_append] at hsplit
    rw [hsplit] at hfilter
    -- the same two stand side by side in what the list has of the key
    obtain ⟨start, more, hl, -, hmore⟩ := List.filter_eq_append_iff.mp hfilter.symm
    obtain ⟨front, rest, hrest, -, -, hb⟩ := List.filter_eq_cons_iff.mp hmore
    obtain ⟨mid, last, hlast, hmid, -, -⟩ := List.filter_eq_cons_iff.mp hb
    refine ⟨start ++ front, a, mid, b, last, ?_, hkey, hq, ?_⟩
    · rw [hl, hrest, hlast, List.append_assoc]
    · intro c hc
      simpa using hmid c hc
  · rintro ⟨before, a, mid, b, after, hl, hkey, hq, hmid⟩
    have hfilter := filter_insertionSort hties l (key a)
    rw [hl, filter_split hkey hmid, ← hl] at hfilter
    have hsorted := List.pairwise_insertionSort r l
    generalize l.insertionSort r = sorted at hfilter hsorted
    obtain ⟨start, more, rfl, -, hmore⟩ := List.filter_eq_append_iff.mp hfilter
    obtain ⟨front, rest, rfl, -, -, hb⟩ := List.filter_eq_cons_iff.mp hmore
    obtain ⟨between, last, rfl, hbetween, -, -⟩ := List.filter_eq_cons_iff.mp hb
    -- what stands between them is tied with both, so it has their key
    have hnone : between = [] := by
      by_contra hsome
      obtain ⟨c, others, rfl⟩ := List.exists_cons_of_ne_nil hsome
      have htail := (List.pairwise_append.mp (List.pairwise_append.mp hsorted).2.1).2.1
      have hac : r a c := List.rel_of_pairwise_cons htail (by simp)
      have hcb : r c b := List.rel_of_pairwise_cons (List.pairwise_cons.mp htail).2 (by simp)
      have hba : r b a := ((hties a b).mpr hkey).2
      have hsame : key a = key c := (hties a c).mp ⟨hac, Trans.trans hcb hba⟩
      exact hbetween c List.mem_cons_self (decide_eq_true hsame.symm)
    subst hnone
    exact ⟨start ++ front, a, b, last, by simp, hkey, hq⟩

omit [Std.Total r] [IsTrans α r] in
/-- Neighbours that change places are told by the sort. -/
theorem eq_of_swap (hties : Ties r key) {before mid after : List α} {a b : α}
    (hkey : key a = key b) (hmid : ∀ c ∈ mid, key c ≠ key a)
    (h : (before ++ b :: (mid ++ a :: after)).insertionSort r
      = (before ++ a :: (mid ++ b :: after)).insertionSort r) : a = b := by
  have hfilter := filter_insertionSort hties (before ++ b :: (mid ++ a :: after)) (key a)
  rw [h, filter_insertionSort hties, filter_split hkey hmid, hkey,
    filter_split hkey.symm (hkey ▸ hmid)] at hfilter
  exact (List.cons.inj (List.append_cancel_left hfilter)).1

end

end O2Fabric.StableSort
