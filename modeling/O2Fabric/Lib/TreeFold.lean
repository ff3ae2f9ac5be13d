/-
  O2Fabric.Lib.TreeFold

  Folding a list up an `n`-ary tree, one layer at a time.  A layer is cut into
  consecutive slices of `n`; a slice of two or more items is merged into one
  item, and a slice of one is promoted unchanged.

  Only the last slice can be short, so a layer is its groups followed by at
  most one promoted item (`flatten_groups_append_lone`), and the next layer is
  the merged groups followed by that same item (`layerUp_eq`).  Everything else
  here is read off those two equations.
-/

import Mathlib.Data.List.Flatten
import Mathlib.Data.List.Nodup

namespace O2Fabric.TreeFold

universe u v

variable {α : Type u} {β : Type v}

/-! ## Slices -/

/-- The consecutive slices `l[0, n), l[n, 2n), …`, the last one possibly short. -/
def slices (n : Nat) (l : List α) : List (List α) :=
  (List.range ((l.length + n - 1) / n)).map fun i => (l.drop (i * n)).take n

@[simp] theorem slices_nil (n : Nat) : slices n ([] : List α) = [] := by
  rcases Nat.eq_zero_or_pos n with rfl | hn
  · simp [slices]
  · have : (n - 1) / n = 0 := Nat.div_eq_of_lt (by omega)
    simp [slices, this]

variable {l : List α}

theorem slices_eq_cons {n : Nat} (hn : 0 < n) (hl : l ≠ []) :
    slices n l = l.take n :: slices n (l.drop n) := by
  have hpos : 0 < l.length := List.length_pos_of_ne_nil hl
  have hcount : (l.length + n - 1) / n = ((l.drop n).length + n - 1) / n + 1 := by
    rw [List.length_drop]
    rcases Nat.lt_or_ge l.length n with h | h
    · rw [Nat.sub_eq_zero_of_le (Nat.le_of_lt h),
        Nat.div_eq_of_lt (show 0 + n - 1 < n by omega)]
      exact Nat.div_eq_of_lt_le (by omega) (by omega)
    · rw [← Nat.add_div_right _ hn]
      congr 1
      omega
  rw [slices, slices, hcount, List.range_succ_eq_map, List.map_cons, List.map_map]
  simp only [Nat.zero_mul, List.drop_zero, List.cons.injEq, true_and]
  apply List.map_congr_left
  intro i _
  simp only [Function.comp_apply, Nat.succ_eq_add_one, List.drop_drop]
  congr 2
  rw [Nat.succ_mul, Nat.add_comm]

/-- Induction that takes one slice off the front at a time. -/
theorem slices_induction {n : Nat} (hn : 0 < n) {P : List α → Prop} (nil : P [])
    (slice : ∀ l, l ≠ [] → P (l.drop n) → P l) (l : List α) : P l := by
  rcases eq_or_ne l [] with rfl | hl
  · exact nil
  · have hpos : 0 < l.length := List.length_pos_of_ne_nil hl
    exact slice l hl (slices_induction hn nil slice (l.drop n))
termination_by l.length
decreasing_by
  rw [List.length_drop]
  omega

theorem ne_nil_of_mem_slices {n : Nat} (hn : 0 < n) {s : List α} (hs : s ∈ slices n l) :
    s ≠ [] := by
  induction l using slices_induction hn with
  | nil => simp at hs
  | slice l hl ih =>
    rw [slices_eq_cons hn hl, List.mem_cons] at hs
    rcases hs with rfl | hs
    · exact List.ne_nil_of_length_pos
        (by have := List.length_pos_of_ne_nil hl; rw [List.length_take]; omega)
    · exact ih hs

theorem map_slices (n : Nat) (f : α → β) (l : List α) :
    slices n (l.map f) = (slices n l).map (List.map f) := by
  simp [slices, List.map_drop, List.map_take, Function.comp_def]

/-! ## Groups and the promoted item -/

/-- The slices that are merged: those of at least two items. -/
def groups (n : Nat) (l : List α) : List (List α) :=
  (slices n l).filter fun g => decide (2 ≤ g.length)

/-- The item promoted unchanged, if the last slice holds only one. -/
def lone (n : Nat) (l : List α) : List α :=
  ((slices n l).filter fun g => decide (g.length < 2)).flatten

@[simp] theorem groups_nil (n : Nat) : groups n ([] : List α) = [] := by simp [groups]

@[simp] theorem lone_nil (n : Nat) : lone n ([] : List α) = [] := by simp [lone]

section

variable {n : Nat} (hn : 2 ≤ n)
include hn

theorem slices_singleton (x : α) : slices n [x] = [[x]] := by
  have hdrop : ([x] : List α).drop n = [] := List.drop_eq_nil_of_le (by simp; omega)
  have htake : ([x] : List α).take n = [x] := List.take_of_length_le (by simp; omega)
  rw [slices_eq_cons (by omega) (by simp), hdrop, htake, slices_nil]

theorem groups_singleton (x : α) : groups n [x] = [] := by
  simp [groups, slices_singleton hn]

theorem lone_singleton (x : α) : lone n [x] = [x] := by
  simp [lone, slices_singleton hn]

variable {l : List α}

theorem groups_eq_cons (hl : 2 ≤ l.length) :
    groups n l = l.take n :: groups n (l.drop n) := by
  have hne : l ≠ [] := by
    rintro rfl
    simp at hl
  have hlen : 2 ≤ (l.take n).length := by rw [List.length_take]; omega
  rw [groups, slices_eq_cons (by omega) hne, List.filter_cons_of_pos (by simpa using hlen),
    groups]

theorem lone_eq_drop (hl : 2 ≤ l.length) : lone n l = lone n (l.drop n) := by
  have hne : l ≠ [] := by
    rintro rfl
    simp at hl
  have hlen : ¬ (l.take n).length < 2 := by rw [List.length_take]; omega
  rw [lone, slices_eq_cons (by omega) hne, List.filter_cons_of_neg (by simpa using hlen), lone]

/-- Induction over a layer: empty, one promoted item, or a group and the rest. -/
theorem layer_induction {P : List α → Prop} (nil : P []) (single : ∀ x, P [x])
    (group : ∀ l, 2 ≤ l.length → P (l.drop n) → P l) (l : List α) : P l := by
  refine slices_induction (n := n) (by omega) nil ?_ l
  intro l hl ih
  match l, hl with
  | [x], _ => exact single x
  | x :: y :: rest, _ => exact group _ (by simp) ih

theorem flatten_groups_append_lone (l : List α) :
    (groups n l).flatten ++ lone n l = l := by
  induction l using layer_induction hn with
  | nil => simp
  | single x => simp [groups_singleton hn, lone_singleton hn]
  | group l hl ih =>
    rw [groups_eq_cons hn hl, lone_eq_drop hn hl, List.flatten_cons, List.append_assoc, ih,
      List.take_append_drop]

theorem mem_of_mem_groups {g : List α} {x : α} (hg : g ∈ groups n l) (hx : x ∈ g) : x ∈ l := by
  rw [← flatten_groups_append_lone hn l]
  exact List.mem_append_left _ (List.mem_flatten.mpr ⟨g, hg, hx⟩)

theorem mem_of_mem_lone {x : α} (hx : x ∈ lone n l) : x ∈ l := by
  rw [← flatten_groups_append_lone hn l]
  exact List.mem_append_right _ hx

omit hn in
theorem length_of_mem_groups {l g : List α} (hg : g ∈ groups n l) :
    2 ≤ g.length ∧ g.length ≤ n := by
  rw [groups, List.mem_filter, decide_eq_true_eq, slices, List.mem_map] at hg
  obtain ⟨⟨i, -, rfl⟩, hlen⟩ := hg
  exact ⟨hlen, List.length_take_le _ _⟩

theorem length_lone_le (l : List α) : (lone n l).length ≤ 1 := by
  induction l using layer_induction hn with
  | nil => simp
  | single x => simp [lone_singleton hn]
  | group l hl ih => rwa [lone_eq_drop hn hl]

theorem length_groups_lt (hl : l ≠ []) : (groups n l).length < l.length := by
  have htwice : 2 * (groups n l).length ≤ l.length := by
    induction l using layer_induction hn with
    | nil => simp
    | single x => simp [groups_singleton hn]
    | group l hlen ih =>
      rcases eq_or_ne (l.drop n) [] with hdrop | hdrop
      · rw [groups_eq_cons hn hlen, hdrop, groups_nil, List.length_singleton]
        omega
      · have := ih hdrop
        rw [List.length_drop] at this
        rw [groups_eq_cons hn hlen, List.length_cons]
        omega
  have := List.length_pos_of_ne_nil hl
  omega

theorem lone_append (front : List α) (last : α) :
    lone n (front ++ [last]) = if n ∣ front.length then [last] else [] := by
  induction front using slices_induction (n := n) (by omega) with
  | nil => simp [lone_singleton hn]
  | slice front hne ih =>
    have hpos : 0 < front.length := List.length_pos_of_ne_nil hne
    rw [lone_eq_drop hn (by simp; omega)]
    rcases Nat.lt_or_ge front.length n with h | h
    · have hdrop : (front ++ [last]).drop n = [] :=
        List.drop_eq_nil_of_le (by simp; omega)
      rw [hdrop, if_neg (fun hd => absurd (Nat.le_of_dvd hpos hd) (by omega)), lone_nil]
    · rw [List.drop_append_of_le_length h, ih, List.length_drop]
      refine if_congr ⟨fun hd => ?_, fun hd => Nat.dvd_sub hd (Nat.dvd_refl n)⟩ rfl rfl
      rw [← Nat.sub_add_cancel h]
      exact Nat.dvd_add hd (Nat.dvd_refl n)

/-- One item more than whole slices of `n` is promoted past the same groups. -/
theorem groups_append_of_dvd {front : List α} (last : α) (hd : n ∣ front.length) :
    groups n (front ++ [last]) = groups n front := by
  induction front using slices_induction (n := n) (by omega) with
  | nil => simp [groups_singleton hn]
  | slice front hne ih =>
    have hpos : 0 < front.length := List.length_pos_of_ne_nil hne
    have hle : n ≤ front.length := Nat.le_of_dvd hpos hd
    rw [groups_eq_cons hn (by simp; omega), groups_eq_cons (l := front) hn (by omega),
      List.take_append_of_le_length hle, List.drop_append_of_le_length hle,
      ih (by rw [List.length_drop]; exact Nat.dvd_sub hd (Nat.dvd_refl n))]

/-- Otherwise the last item joins what is left after the whole slices, and that
    group is the only one it is in. -/
theorem groups_append_of_not_dvd {front : List α} (last : α) (hd : ¬ n ∣ front.length) :
    groups n (front ++ [last])
      = groups n (front.take (front.length / n * n))
        ++ [front.drop (front.length / n * n) ++ [last]] := by
  induction front using slices_induction (n := n) (by omega) with
  | nil => exact absurd (Nat.dvd_zero n) hd
  | slice front hne ih =>
    have hpos : 0 < front.length := List.length_pos_of_ne_nil hne
    rw [groups_eq_cons hn (by simp; omega)]
    rcases Nat.lt_or_ge front.length n with h | h
    · -- One short slice: there is nothing before it.
      have htake : (front ++ [last]).take n = front ++ [last] :=
        List.take_of_length_le (by simp; omega)
      have hdrop : (front ++ [last]).drop n = [] := List.drop_eq_nil_of_le (by simp; omega)
      rw [htake, hdrop, Nat.div_eq_of_lt h]
      simp
    · have hdiv : front.length / n = (front.length - n) / n + 1 := by
        rw [← Nat.add_div_right _ (by omega), Nat.sub_add_cancel h]
      have hq : front.length / n * n = n + (front.length - n) / n * n := by
        rw [hdiv, Nat.succ_mul, Nat.add_comm]
      have hlong : 2 ≤ (front.take (front.length / n * n)).length := by
        have := Nat.div_mul_le_self front.length n
        rw [List.length_take, hq] at *
        omega
      have hrest : ¬ n ∣ (front.drop n).length := by
        rw [List.length_drop]
        intro hsub
        exact hd (by have := Nat.dvd_add hsub (Nat.dvd_refl n); rwa [Nat.sub_add_cancel h] at this)
      rw [List.take_append_of_le_length h, List.drop_append_of_le_length h, ih hrest,
        groups_eq_cons hn hlong, List.cons_append, List.length_drop, hq, List.take_take,
        List.drop_take, List.drop_drop, Nat.min_eq_left (Nat.le_add_right _ _),
        Nat.add_sub_cancel_left]

end

/-! ## One layer up -/

/-- A slice of one is promoted, a longer one is merged. -/
def mergeSlice (merge : List α → α) : List α → α
  | [x] => x
  | g => merge g

/-- The layer above `l`. -/
def layerUp (n : Nat) (merge : List α → α) (l : List α) : List α :=
  (slices n l).map (mergeSlice merge)

theorem mergeSlice_of_two_le {merge : List α → α} {g : List α} (h : 2 ≤ g.length) :
    mergeSlice merge g = merge g := by
  match g, h with
  | [], _ => rfl
  | _ :: _ :: _, _ => rfl

section

variable {n : Nat} (hn : 2 ≤ n)
include hn

theorem layerUp_eq (merge : List α → α) (l : List α) :
    layerUp n merge l = (groups n l).map merge ++ lone n l := by
  induction l using layer_induction hn with
  | nil => simp [layerUp]
  | single x =>
    simp [layerUp, slices_singleton hn, groups_singleton hn, lone_singleton hn, mergeSlice]
  | group l hl ih =>
    have hne : l ≠ [] := by
      rintro rfl
      simp at hl
    have htake : 2 ≤ (l.take n).length := by rw [List.length_take]; omega
    rw [layerUp, slices_eq_cons (by omega) hne, List.map_cons, mergeSlice_of_two_le htake,
      groups_eq_cons hn hl, lone_eq_drop hn hl, List.map_cons, List.cons_append, ← ih, layerUp]

theorem length_layerUp_lt (merge : List α → α) {l : List α} (hl : 2 ≤ l.length) :
    (layerUp n merge l).length < l.length := by
  have hsplit := congrArg List.length (flatten_groups_append_lone hn l)
  have hone := length_lone_le hn l
  have hflat : 2 * (groups n l).length ≤ (groups n l).flatten.length := by
    have : ∀ gs : List (List α), (∀ g ∈ gs, 2 ≤ g.length) →
        2 * gs.length ≤ gs.flatten.length := by
      intro gs
      induction gs with
      | nil => simp
      | cons g gs ih =>
        intro h
        have h1 := h g (by simp)
        have h2 := ih (fun g' hg' => h g' (List.mem_cons_of_mem _ hg'))
        simp only [List.length_cons, List.flatten_cons, List.length_append]
        omega
    exact this _ (fun g hg => (length_of_mem_groups hg).1)
  rw [layerUp_eq hn, List.length_append, List.length_map]
  rw [List.length_append] at hsplit
  omega

theorem layerUp_ne_nil (merge : List α → α) {l : List α} (hl : l ≠ []) :
    layerUp n merge l ≠ [] := by
  rw [layerUp, slices_eq_cons (by omega) hl]
  simp

end

/-- A map that commutes with merging commutes with the whole layer. -/
theorem map_layerUp {n : Nat} {merge : List α → α} {merge' : List β → β} {f : α → β}
    (h : ∀ g ∈ slices n l, f (mergeSlice merge g) = mergeSlice merge' (g.map f)) :
    (layerUp n merge l).map f = layerUp n merge' (l.map f) := by
  rw [layerUp, layerUp, map_slices, List.map_map, List.map_map]
  exact List.map_congr_left h

/-! ## Climbing to the root -/

/-! ## Combiners that may be applied group by group -/

/-- Folding a list in consecutive non-empty groups, then folding the results,
    gives what folding it at once gives. -/
def Regroups (f : List β → β) : Prop :=
  ∀ gs : List (List β), (∀ g ∈ gs, g ≠ []) → f gs.flatten = f (gs.map f)

/-- What a tree holds for the values below one of its items: the value itself
    where there is one, and the fold of them where there are more. -/
def summary (f : List β → β) : List β → β
  | [v] => v
  | vs => f vs

variable {f : List β → β} {vs : List β}

theorem Regroups.apply_apply (hf : Regroups f) (hvs : vs ≠ []) :
    f [f vs] = f vs := by
  simpa using (hf [vs] (by simpa using hvs)).symm

theorem Regroups.apply_summary (hf : Regroups f) (hvs : vs ≠ []) :
    f [summary f vs] = f vs := by
  match vs, hvs with
  | [v], _ => rfl
  | v :: w :: rest, _ => exact hf.apply_apply (by simp)

/-- Folding the summaries of consecutive groups folds the whole list, although
    a summary of one value is that value, unfolded. -/
theorem Regroups.fold_summaries (hf : Regroups f) {gs : List (List β)} (hgs : ∀ g ∈ gs, g ≠ []) :
    f (gs.map (summary f)) = f gs.flatten := by
  have hsingle : (gs.map fun g => [summary f g]).flatten = gs.map (summary f) := by
    induction gs with
    | nil => rfl
    | cons g gs ih =>
      simp [ih (fun g' hg' => hgs g' (List.mem_cons_of_mem _ hg'))]
  calc f (gs.map (summary f))
      = f (gs.map fun g => [summary f g]).flatten := by rw [hsingle]
    _ = f ((gs.map fun g => [summary f g]).map f) := hf _ (by simp)
    _ = f (gs.map f) := by
        rw [List.map_map]
        congr 1
        exact List.map_congr_left (fun g hg => hf.apply_summary (hgs g hg))
    _ = f gs.flatten := (hf gs hgs).symm

theorem summary_of_two_le (h : 2 ≤ vs.length) :
    summary f vs = f vs := by
  match vs, h with
  | _ :: _ :: _, _ => rfl

end O2Fabric.TreeFold
