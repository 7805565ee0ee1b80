import Mathlib.Data.List.ReduceOption
import Mathlib.Data.List.Perm.Basic
import Mathlib.Tactic.Common

/-!
# Workers on a shared queue

Workers take items from one queue, each holds one at a time. A worker that starts, or is done
with its item, takes the first item left that is kept, passing over the others for good, and
ends when there is none. Items are numbered in the order in which they are taken.

`InOrder` says that the items taken and the kept ones that are left are the kept items of the
list; `Sound` says besides that every item taken is done or held, by one worker, and that a
worker ends only when nothing is left. So when all workers have ended, all kept items were
taken and all are done (`Sound.done_perm`).
-/

namespace Liquifact.Lib

/- What is left of the queue, the items taken from it, and the number of the item that each
worker holds; `none` has ended. -/
structure Pool (α : Type) where
  remaining : List α
  taken : List α
  hands : List (Option ℕ)

namespace Pool
section
variable {α : Type} (kept : α → Bool)

/- The next kept item, and what is left after it. -/
def takeNext : List α → Option α × List α
  | [] => (none, [])
  | a :: rest => if kept a then (some a, rest) else takeNext rest

def nextItem (p : Pool α) : Option α := (takeNext kept p.remaining).1

def draw (p : Pool α) : Pool α :=
  { p with
    remaining := (takeNext kept p.remaining).2
    taken := p.taken ++ (p.nextItem kept).toList }

/- The number that the next item gets. -/
def hand (p : Pool α) : Option ℕ := (p.nextItem kept).map fun _ => p.taken.length

def hire (p : Pool α) : Pool α := { p.draw kept with hands := p.hands ++ [p.hand kept] }

def launch (items : List α) : ℕ → Pool α
  | 0 => ⟨items, [], []⟩
  | n + 1 => (launch items n).hire kept

/- A worker is done with what it holds. -/
def next (p : Pool α) (w : ℕ) : Pool α :=
  { p.draw kept with hands := p.hands.set w (p.hand kept) }

def load (p : Pool α) : ℕ := p.hands.reduceOption.length + (p.remaining.filter kept).length

def InOrder (items : List α) (p : Pool α) : Prop :=
  p.taken ++ p.remaining.filter kept = items.filter kept

structure Sound (items : List α) (done : List ℕ) (p : Pool α) : Prop where
  inOrder : InOrder kept items p
  numbers : (done ++ p.hands.reduceOption).Perm (List.range p.taken.length)
  drained : none ∈ p.hands → p.remaining = []

variable {kept} {items : List α} {done : List ℕ} {p : Pool α}

theorem takeNext_filter (l : List α) :
    (takeNext kept l).1.toList ++ (takeNext kept l).2.filter kept = l.filter kept := by
  induction l with
  | nil => rfl
  | cons a rest ih =>
    rw [takeNext]
    split
    · next hkept =>
      rw [List.filter_cons_of_pos hkept]
      rfl
    · next hskip => rw [List.filter_cons_of_neg hskip, ih]

theorem takeNext_none {l : List α} (h : (takeNext kept l).1 = none) : (takeNext kept l).2 = [] := by
  induction l with
  | nil => rfl
  | cons a rest ih =>
    rw [takeNext] at h ⊢
    split at h
    · cases h
    · next hskip =>
      rw [if_neg hskip]
      exact ih h

theorem InOrder.draw (h : InOrder kept items p) : InOrder kept items (p.draw kept) := by
  have htake : (takeNext kept p.remaining).1.toList ++ (takeNext kept p.remaining).2.filter kept =
      p.remaining.filter kept := takeNext_filter p.remaining
  rw [InOrder, Pool.draw, List.append_assoc, nextItem, htake]
  exact h

theorem InOrder.length_le (h : InOrder kept items p) :
    p.taken.length ≤ (items.filter kept).length := by
  rw [← h, List.length_append]
  exact Nat.le_add_right ..

theorem drained_draw {hands : List (Option ℕ)} (h : none ∈ hands → p.remaining = [])
    (hmem : none ∈ hands ∨ p.hand kept = none) : (p.draw kept).remaining = [] := by
  rcases hmem with hold | hnew
  · rw [draw, h hold]
    rfl
  · exact takeNext_none (Option.map_eq_none_iff.mp hnew)

theorem range_draw (p : Pool α) :
    List.range (p.draw kept).taken.length = List.range p.taken.length ++ (p.hand kept).toList := by
  rw [draw, hand, List.length_append]
  cases p.nextItem kept with
  | none => rw [Option.toList_none, List.length_nil, Nat.add_zero, Option.map_none,
      Option.toList_none, List.append_nil]
  | some a => exact List.range_succ

/- Putting another number in a hand that holds one. -/
theorem hands_set {hands : List (Option ℕ)} {w i : ℕ} (h : hands[w]? = some (some i))
    (x : Option ℕ) : (i :: (hands.set w x).reduceOption).Perm (x.toList ++ hands.reduceOption) := by
  induction hands generalizing w with
  | nil => cases h
  | cons hand hands ih =>
    cases w with
    | zero =>
      cases h
      rw [List.set_cons_zero]
      cases x with
      | none => rfl
      | some j => exact List.Perm.swap _ _ _
    | succ w =>
      rw [List.set_cons_succ]
      cases hand with
      | none => exact ih h
      | some j =>
        rw [List.reduceOption_cons_of_some, List.reduceOption_cons_of_some]
        have hswap := List.Perm.swap j i (hands.set w x).reduceOption
        exact hswap.trans (((ih h).cons j).trans List.perm_middle.symm)

theorem Sound.hire (h : Sound kept items done p) : Sound kept items done (p.hire kept) := by
  refine ⟨h.inOrder.draw, ?_, ?_⟩
  · have hreduce : (p.hire kept).hands.reduceOption =
        p.hands.reduceOption ++ (p.hand kept).toList := by
      rw [Pool.hire, List.reduceOption_append]
      cases p.hand kept with
      | none => rfl
      | some i => rfl
    rw [hreduce, ← List.append_assoc]
    exact (h.numbers.append_right _).trans (List.Perm.of_eq (range_draw p).symm)
  · intro hmem
    refine drained_draw h.drained ?_
    rcases List.mem_append.mp hmem with hold | hnew
    · exact .inl hold
    · exact .inr (List.mem_singleton.mp hnew).symm

theorem launch_length (items : List α) (n : ℕ) : (launch kept items n).hands.length = n := by
  induction n with
  | zero => rfl
  | succ n ih => rw [launch, hire, List.length_append, ih, List.length_singleton]

theorem launch_sound (items : List α) (n : ℕ) : Sound kept items [] (launch kept items n) := by
  induction n with
  | zero => exact ⟨rfl, List.Perm.refl _, fun h => by cases h⟩
  | succ n ih => exact ih.hire

/-- A worker that holds an item is done with it and takes the next. -/
theorem Sound.next (h : Sound kept items done p) {w i : ℕ} (hw : p.hands[w]? = some (some i)) :
    Sound kept items (done ++ [i]) (p.next kept w) := by
  refine ⟨h.inOrder.draw, ?_, ?_⟩
  · have hset := (hands_set hw (p.hand kept)).append_left done
    rw [List.append_assoc]
    refine hset.trans ((List.perm_append_comm_assoc _ _ _).trans ?_)
    refine (h.numbers.append_left _).trans (List.perm_append_comm.trans ?_)
    exact List.Perm.of_eq (range_draw p).symm
  · intro hmem
    refine drained_draw h.drained ?_
    rcases List.mem_or_eq_of_mem_set hmem with hold | hnew
    · exact .inl hold
    · exact .inr hnew.symm

/- What holds of no item that is done holds of as many items as there are workers, at most. -/
theorem Sound.countP_le (h : Sound kept items done p) {q : ℕ → Bool} (hq : ∀ i ∈ done, q i = false) :
    (List.range p.taken.length).countP q ≤ p.hands.length := by
  have hnone : done.countP q = 0 := by
    rw [List.countP_eq_zero]
    intro i hi
    rw [hq i hi]
    exact Bool.false_ne_true
  rw [← h.numbers.countP_eq q, List.countP_append, hnone, Nat.zero_add]
  exact Nat.le_trans List.countP_le_length (List.reduceOption_length_le _)

theorem load_next {w i : ℕ} (hw : p.hands[w]? = some (some i)) :
    (p.next kept w).load kept + 1 = p.load kept := by
  have hset := (hands_set hw (p.hand kept)).length_eq
  have htake := congrArg List.length (@takeNext_filter α kept p.remaining)
  have hhand : (p.hand kept).toList.length = (p.nextItem kept).toList.length := by
    rw [hand]
    cases p.nextItem kept with
    | none => rfl
    | some a => rfl
  rw [List.length_cons, List.length_append, hhand] at hset
  rw [List.length_append] at htake
  change (p.hands.set w (p.hand kept)).reduceOption.length +
    ((takeNext kept p.remaining).2.filter kept).length + 1 =
      p.hands.reduceOption.length + (p.remaining.filter kept).length
  rw [nextItem] at hset
  omega

/-- Once all workers have ended, every kept item was taken and every item taken is done. -/
theorem Sound.done_perm (h : Sound kept items done p) (hended : ∀ hand ∈ p.hands, hand = none)
    (hworkers : p.hands ≠ [] ∨ items.filter kept = []) :
    p.taken = items.filter kept ∧ done.Perm (List.range p.taken.length) := by
  have hheld : p.hands.reduceOption = [] := by
    rw [List.eq_nil_iff_forall_not_mem]
    intro i hi
    rw [List.reduceOption_mem_iff] at hi
    cases hended _ hi
  have hnumbers := h.numbers
  rw [hheld, List.append_nil] at hnumbers
  refine ⟨?_, hnumbers⟩
  have hinOrder := h.inOrder
  rcases hworkers with hne | hnone
  · obtain ⟨hand, hmem⟩ := List.exists_mem_of_ne_nil _ hne
    have hempty := h.drained (hended hand hmem ▸ hmem)
    rwa [InOrder, hempty, List.filter_nil, List.append_nil] at hinOrder
  · rw [InOrder, hnone] at hinOrder
    rw [hnone, (List.append_eq_nil_iff.mp hinOrder).1]

/-! ### A list by the numbers of its items -/

theorem map_range_getElem? (l : List α) : ((List.range l.length).map fun k => l[k]?) = l.map some := by
  refine List.ext_getElem? fun k => ?_
  rw [List.getElem?_map, List.getElem?_map]
  rcases Nat.lt_or_ge k l.length with hlt | hge
  · rw [List.getElem?_range hlt, Option.map_some, List.getElem?_eq_getElem hlt, Option.map_some]
  · rw [List.getElem?_eq_none (by rwa [List.length_range]), List.getElem?_eq_none hge,
      Option.map_none, Option.map_none]

theorem countP_numbers (l : List α) (q : α → Bool) :
    ((List.range l.length).countP fun k => l[k]?.any q) = l.countP q := by
  have hmap := congrArg (List.countP (Option.any q)) (map_range_getElem? l)
  rwa [List.countP_map, List.countP_map] at hmap

/- What all items give, taken in the order in which they were done. -/
theorem filterMap_numbers {β : Type} {l : List α} (h : done.Perm (List.range l.length))
    (g : α → Option β) : (done.filterMap fun k => l[k]?.bind g).Perm (l.filterMap g) := by
  have hrange : ((List.range l.length).filterMap fun k => l[k]?.bind g) = l.filterMap g := by
    have hmap := congrArg (List.filterMap fun x => x.bind g) (map_range_getElem? l)
    rwa [List.filterMap_map, List.filterMap_map] at hmap
  rw [← hrange]
  exact h.filterMap _

end
end Pool
end Liquifact.Lib
