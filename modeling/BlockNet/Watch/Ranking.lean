/-! # Ranking by insertion

A list is put in order by an insertion sort that starts from the run at its front. For numbers that
compare with one another the result is what any stable sort gives. Where some numbers compare with
nothing, it is the places that are looked at which decide, so the search for a place is fixed: it
halves the run. The main statement is that ranking only moves the members of a list. -/

namespace BlockNet.Ranking

variable {β : Type} (less : β → β → Bool)

/-- The members after `a` for as long as each is below the one before, and what follows them. -/
def falling (a : β) : List β → List β × List β
  | [] => ([], [])
  | b :: rest =>
      if less b a then
        let (run, others) := falling b rest
        (b :: run, others)
      else ([], b :: rest)

/-- The members after `a` for as long as none is below the one before, and what follows them. -/
def rising (a : β) : List β → List β × List β
  | [] => ([], [])
  | b :: rest =>
      if less b a then ([], b :: rest)
      else
        let (run, others) := rising b rest
        (b :: run, others)

/-- The run at the front of a list, turned round if it falls, and what follows it. -/
def leadingRun (xs : List β) : List β × List β :=
  match xs with
  | [] => ([], [])
  | [a] => ([a], [])
  | a :: b :: rest =>
      if less b a then
        let (run, others) := falling less b rest
        ((a :: b :: run).reverse, others)
      else
        let (run, others) := rising less b rest
        (a :: b :: run, others)

/-- The place of a member between `low` and `high`, found by halving: before the first one looked at
that the member is below. -/
def placeIn (xs : Array β) (x : β) (low high : Nat) : Nat :=
  if low < high then
    let middle := low + (high - low) / 2
    match xs[middle]? with
    | some y => if less x y then placeIn xs x low middle else placeIn xs x (middle + 1) high
    | none => low
  else low
termination_by high - low

/-- Puts a member in its place. -/
def insert (xs : List β) (x : β) : List β :=
  let place := placeIn less xs.toArray x 0 xs.length
  xs.take place ++ x :: xs.drop place

/-- The list in rising order. -/
def ascending (xs : List β) : List β :=
  let (run, others) := leadingRun less xs
  others.foldl (insert less) run

/-- The list in falling order, equals in the order in which they came. -/
def descending (xs : List β) : List β := (ascending less xs.reverse).reverse

/-- A falling run and the rest make up the list. -/
theorem falling_append (a : β) (xs : List β) :
    (falling less a xs).1 ++ (falling less a xs).2 = xs := by
  induction xs generalizing a with
  | nil => rfl
  | cons b rest ih =>
    by_cases h : less b a = true
    · simp [falling, h, ih]
    · simp [falling, h]

/-- A rising run and the rest make up the list. -/
theorem rising_append (a : β) (xs : List β) :
    (rising less a xs).1 ++ (rising less a xs).2 = xs := by
  induction xs generalizing a with
  | nil => rfl
  | cons b rest ih =>
    by_cases h : less b a = true
    · simp [rising, h]
    · simp [rising, h, ih]

/-- The leading run and the rest hold the members of the list. -/
theorem leadingRun_perm (xs : List β) :
    ((leadingRun less xs).1 ++ (leadingRun less xs).2).Perm xs := by
  match xs with
  | [] => simp [leadingRun]
  | [a] => simp [leadingRun]
  | a :: b :: rest =>
    by_cases h : less b a = true
    · simp only [leadingRun, h, if_true]
      refine ((List.reverse_perm _).append_right _).trans ?_
      simp [falling_append]
    · simp [leadingRun, h, rising_append]

/-- Putting a member in its place adds it to the list. -/
theorem insert_perm (xs : List β) (x : β) : (insert less xs x).Perm (x :: xs) := by
  simp only [insert]
  refine List.perm_middle.trans ?_
  simp

/-- Rising order moves the members of a list and changes nothing else. -/
theorem ascending_perm (xs : List β) : (ascending less xs).Perm xs := by
  have step : ∀ (others run : List β), (others.foldl (insert less) run).Perm (run ++ others) := by
    intro others
    induction others with
    | nil => simp
    | cons x rest ih =>
      intro run
      refine (ih _).trans (((insert_perm less run x).append_right rest).trans ?_)
      exact List.perm_middle.symm
  exact (step _ _).trans (leadingRun_perm less xs)

/-- Falling order moves the members of a list and changes nothing else. -/
theorem descending_perm (xs : List β) : (descending less xs).Perm xs :=
  (List.reverse_perm _).trans ((ascending_perm less _).trans (List.reverse_perm _))

end BlockNet.Ranking
