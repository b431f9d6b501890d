import SciDB.Lib.Runs

/-!
# Cursors over ordered lists

What an iterator with `reset`, `++` and `setPosition` is for: it goes through a strictly increasing list. `InStep` is how one can
be made of two that are moved together.
-/

namespace SciDB.Lib

open List Option

/-- Calls that move an iterator. -/
inductive IteratorCall (α : Type*) where
  | reset
  | next
  | setPosition (p : α)

namespace Cursor

variable {α : Type*} [LinearOrder α]

/-- `y` comes after `x`. -/
def isAfter (p q : α) : Bool := decide (p < q)

variable {p q c : α} {l rest : List α} {P : α → Bool}

lemma isAfter_iff : isAfter p q = true ↔ p < q := decide_eq_true_iff

/-- The state is the element where it is; an answer is what a call returns, and that element. -/
def call (l : List α) (key : α → α) (o : Option α) : IteratorCall α → Option ((Bool × Option α) × Option α)
  | .reset => some ((true, l.head?), l.head?)
  | .next =>
    match o with
    | some p => some ((true, l.find? (isAfter p)), l.find? (isAfter p))
    | none => none
  | .setPosition p => if key p ∈ l then some ((true, some (key p)), some (key p)) else some ((false, none), none)

lemma filter_gt_of_sorted (h : (l ++ p :: rest).Pairwise (· < ·)) : (l ++ p :: rest).filter (isAfter p) = rest := by
  obtain ⟨-, hrest, hpre⟩ := pairwise_append.mp h
  rw [filter_append, filter_cons_of_neg (by simp [isAfter_iff]), filter_eq_nil_iff.mpr, nil_append, filter_eq_self.mpr]
  · exact fun q hq => isAfter_iff.mpr ((pairwise_cons.mp hrest).1 q hq)
  · intro q hq
    rw [isAfter_iff, not_lt]
    exact le_of_lt (hpre q hq p mem_cons_self)

lemma find_gt_of_sorted (h : (l ++ p :: rest).Pairwise (· < ·)) : (l ++ p :: rest).find? (isAfter p) = rest.head? := by
  rw [← head?_filter, filter_gt_of_sorted h]

lemma find_eq_some_of_least (h : l.Pairwise (· < ·)) (hc : c ∈ l) (hP : P c = true)
    (hleast : ∀ q ∈ l, P q = true → c ≤ q) : l.find? P = some c := by
  obtain ⟨l, rest, rfl⟩ := append_of_mem hc
  refine find?_eq_some_iff_append.mpr ⟨hP, l, rest, rfl, fun q hq => ?_⟩
  have hlt := (pairwise_append.mp h).2.2 q hq c mem_cons_self
  rw [Bool.not_eq_true']
  by_contra hPq
  exact not_le_of_gt hlt (hleast q (mem_append_left _ hq) ((Bool.not_eq_false _).mp hPq))

lemma le_of_find_eq_some (h : l.Pairwise (· < ·)) (hc : l.find? P = some c) (hq : q ∈ l) (hP : P q = true) : c ≤ q := by
  obtain ⟨-, l, rest, rfl, hnone⟩ := find?_eq_some_iff_append.mp hc
  rcases mem_append.mp hq with hq | hq
  · have := hnone q hq
    rw [hP] at this
    cases this
  · rcases mem_cons.mp hq with rfl | hq
    · exact le_rfl
    · exact le_of_lt ((pairwise_cons.mp (pairwise_append.mp h).2.1).1 q hq)

lemma enumerates_from {key : α → α} (h : (l ++ p :: rest).Pairwise (· < ·)) :
    answers (call (l ++ p :: rest) key) (some p) (replicate (rest.length + 1) .next) =
      some ((rest.map some ++ [none]).map (true, ·)) := by
  induction rest generalizing l p with
  | nil =>
    rw [length_nil, zero_add, replicate_one, answers, call, find_gt_of_sorted h]
    rfl
  | cons q rest ih =>
    have happ : l ++ p :: q :: rest = (l ++ [p]) ++ q :: rest := by simp
    rw [length_cons, replicate_succ, answers, call, find_gt_of_sorted h, head?_cons, bind_some]
    rw [happ] at h ⊢
    rw [ih h]
    rfl

/-- **A pass gives the elements in order, each once, and then the end.** -/
lemma enumerates (h : l.Pairwise (· < ·)) (key : α → α) (o : Option α) :
    answers (call l key) o (.reset :: replicate l.length .next) = some ((l.map some ++ [none]).map (true, ·)) := by
  cases l with
  | nil => rfl
  | cons p rest =>
    rw [answers, call, head?_cons, bind_some, length_cons]
    have := @enumerates_from α _ p [] rest key h
    rw [nil_append] at this
    rw [this]
    rfl

/-- An iterator over a list, and where a second one stands that is moved with it. -/
structure InStep (α : Type*) where
  input : List α
  join : Option α
  hasCurrent : Bool

namespace InStep

variable {joined : Bool} {other : List α} {s : InStep α} {o : Option α}

/-- Go on to the next element; if the two are joined, to the next one that the second iterator has too. -/
def align (joined : Bool) (other : List α) : List α → Option α → InStep α
  | [], join => ⟨[], join, false⟩
  | p :: rest, join =>
    if !joined then ⟨p :: rest, join, true⟩
    else if p ∈ other then ⟨p :: rest, some p, true⟩
    else align joined other rest none

/-- Go to a given element. -/
def setPosition (joined : Bool) (l other : List α) (s : InStep α) (p : α) : Bool × InStep α :=
  if p ∈ l then
    if !joined then (true, ⟨l.dropWhile (· ≠ p), s.join, true⟩)
    else if p ∈ other then (true, ⟨l.dropWhile (· ≠ p), some p, true⟩)
    else (false, ⟨l.dropWhile (· ≠ p), none, false⟩)
  else (false, ⟨[], s.join, false⟩)

/-- The current element. -/
def current (s : InStep α) : Option α := if s.hasCurrent then s.input.head? else none

/-- Where `align` stops. -/
def keeps (joined : Bool) (other : List α) (p : α) : Bool := !joined || decide (p ∈ other)

/-- Both stand at an element. -/
inductive At (joined : Bool) (l other : List α) (s : InStep α) : Option α → Prop where
  | ended : s.hasCurrent = false → At joined l other s none
  | on (pre : List α) (p : α) (rest : List α) : l = pre ++ p :: rest → s.input = p :: rest → s.hasCurrent = true →
    (joined = true → s.join = some p ∧ p ∈ other) → At joined l other s (some p)

omit [LinearOrder α] in
lemma At.current_eq (h : At joined l other s o) : s.current = o := by
  cases h with
  | ended hcur => simp [current, hcur]
  | on pre p rest _ hinput hcur _ => simp [current, hcur, hinput]

omit [LinearOrder α] in
lemma At.hasCurrent_eq (h : At joined l other s o) : s.hasCurrent = o.isSome := by
  cases h <;> assumption

omit [LinearOrder α] in
lemma At.mem (h : At joined l other s (some p)) : p ∈ l := by
  obtain _ | ⟨pre, _, rest, rfl, -⟩ := h
  simp

lemma at_align {pre : List α} (hl : l = pre ++ rest) (join : Option α) :
    At joined l other (align joined other rest join) (rest.find? (keeps joined other)) := by
  induction rest generalizing pre join with
  | nil => exact .ended rfl
  | cons p rest ih =>
    rw [align, find?_cons, keeps]
    cases joined with
    | false => exact .on pre p rest hl rfl rfl nofun
    | true =>
      by_cases hp : p ∈ other
      · simpa [hp] using .on pre p rest hl rfl rfl fun _ => ⟨rfl, hp⟩
      · simpa [hp] using ih (hl.trans (append_cons pre p rest)) none

lemma at_start (l : List α) (join : Option α) :
    At joined l other (align joined other l join) (l.filter (keeps joined other)).head? := by
  rw [head?_filter]
  exact at_align (nil_append l).symm join

lemma At.next (hl : l.Pairwise (· < ·)) (h : At joined l other s (some p)) (join : Option α) :
    At joined l other (align joined other s.input.tail join) ((l.filter (keeps joined other)).find? (isAfter p)) := by
  obtain _ | ⟨pre, _, rest, rfl, hinput, -⟩ := h
  rw [← head?_filter, filter_comm, filter_gt_of_sorted hl, head?_filter, hinput]
  exact at_align (append_cons pre p rest) join

lemma at_setPosition (joined : Bool) (other : List α) (hl : l.Pairwise (· < ·)) (s : InStep α) (p : α) :
    (setPosition joined l other s p).1 = decide (p ∈ l.filter (keeps joined other)) ∧
    At joined l other (setPosition joined l other s p).2 (if p ∈ l.filter (keeps joined other) then some p else none) := by
  simp only [mem_filter]
  rw [setPosition]
  by_cases hp : p ∈ l
  · obtain ⟨pre, rest, rfl⟩ := append_of_mem hp
    have hpre : ∀ q ∈ pre, decide (q ≠ p) = true := fun q hq =>
      decide_eq_true (ne_of_lt ((pairwise_append.mp hl).2.2 q hq p mem_cons_self))
    have hmove : (pre ++ p :: rest).dropWhile (fun q => decide (q ≠ p)) = p :: rest := by
      rw [dropWhile_append_of_pos hpre, dropWhile_cons_of_neg (by simp)]
    rw [if_pos hp, hmove]
    cases joined with
    | false => simpa [keeps] using .on pre p rest rfl rfl rfl nofun
    | true =>
      by_cases ho : p ∈ other
      · simpa [keeps, ho] using .on pre p rest rfl rfl rfl fun _ => ⟨rfl, ho⟩
      · simpa [keeps, ho] using .ended rfl
  · simpa [hp] using .ended rfl

lemma join_align (other : List α) (l : List α) (join : Option α) : (align false other l join).join = join := by
  cases l <;> rfl

lemma join_setPosition (l other : List α) (s : InStep α) (p : α) : (setPosition false l other s p).2.join = s.join := by
  rw [setPosition]
  split <;> rfl

end InStep

end Cursor

end SciDB.Lib
