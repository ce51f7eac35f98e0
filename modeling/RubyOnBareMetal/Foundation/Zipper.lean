namespace Foundation

/-!
# Lists with a cursor

A list with a cursor in it is the pair of the lists on either side of the
cursor, and edits at the cursor are edits of the two ends that meet there.
The same list with an index is read off the pair.
-/

/-- A list with a cursor; both sides are kept from the cursor outwards. -/
structure Zipper (α : Type) where
  left : List α
  right : List α
  deriving Repr, DecidableEq

namespace Zipper

variable {α : Type}

/-- The whole list. -/
def toList (zipper : Zipper α) : List α :=
  zipper.left.reverse ++ zipper.right

/-- The number of elements before the cursor. -/
def index (zipper : Zipper α) : Nat :=
  zipper.left.length

/-- A list with the cursor at its end. -/
def atEnd (list : List α) : Zipper α where
  left := list.reverse
  right := []

/-- Put an element before the cursor. -/
def insert (zipper : Zipper α) (element : α) : Zipper α where
  left := element :: zipper.left
  right := zipper.right

/-- Remove the element before the cursor, if there is one. -/
def eraseLeft (zipper : Zipper α) : Zipper α where
  left := zipper.left.tail
  right := zipper.right

/-- Move the cursor back over an element, if there is one. -/
def moveLeft (zipper : Zipper α) : Zipper α :=
  match zipper.left with
  | [] => zipper
  | element :: left => { left := left, right := element :: zipper.right }

/-- Move the cursor over the next element, if there is one. -/
def moveRight (zipper : Zipper α) : Zipper α :=
  match zipper.right with
  | [] => zipper
  | element :: right => { left := element :: zipper.left, right := right }

@[simp] theorem toList_atEnd (list : List α) :
    (atEnd list).toList = list := by
  simp [toList, atEnd]

@[simp] theorem index_atEnd (list : List α) :
    (atEnd list).index = list.length := by
  simp [index, atEnd]

@[simp] theorem toList_moveLeft (zipper : Zipper α) :
    zipper.moveLeft.toList = zipper.toList := by
  rcases zipper with ⟨left, right⟩
  cases left <;> simp [moveLeft, toList]

@[simp] theorem toList_moveRight (zipper : Zipper α) :
    zipper.moveRight.toList = zipper.toList := by
  rcases zipper with ⟨left, right⟩
  cases right <;> simp [moveRight, toList]

/-- Moving back takes an element from the left side. -/
theorem left_moveLeft (zipper : Zipper α) :
    zipper.moveLeft.left = zipper.left.tail := by
  rcases zipper with ⟨left, right⟩
  cases left <;> rfl

/-- Moving on takes an element from the right side. -/
theorem right_moveRight (zipper : Zipper α) :
    zipper.moveRight.right = zipper.right.tail := by
  rcases zipper with ⟨left, right⟩
  cases right <;> rfl

/-- The cursor stands inside the list or at its end. -/
theorem index_le_length (zipper : Zipper α) :
    zipper.index ≤ zipper.toList.length := by
  simp [index, toList]

/-- The list before the cursor. -/
theorem take_index (zipper : Zipper α) :
    zipper.toList.take zipper.index = zipper.left.reverse := by
  simp [index, toList]

/-- The list from the cursor on. -/
theorem drop_index (zipper : Zipper α) :
    zipper.toList.drop zipper.index = zipper.right := by
  simp [index, toList]

/-- The length of the list from the cursor on. -/
theorem length_eq (zipper : Zipper α) :
    zipper.toList.length = zipper.index + zipper.right.length := by
  simp [index, toList]

/-! ## Encoded lists -/

section Encoded

variable {β : Type}

/-- Put elements before the cursor, one after the other. -/
def insertAll (zipper : Zipper α) (elements : List α) : Zipper α :=
  elements.foldl insert zipper

/-- Elements that are put one after the other stand before the cursor. -/
theorem insertAll_eq (zipper : Zipper α) (elements : List α) :
    zipper.insertAll elements =
      ⟨elements.reverse ++ zipper.left, zipper.right⟩ := by
  induction elements generalizing zipper with
  | nil =>
      rfl
  | cons element elements inductionHypothesis =>
      rw [insertAll, List.foldl_cons, ← insertAll, inductionHypothesis]
      simp [insert]

/-- Each side of the cursor is the code of the same side. -/
structure Encodes
    (encode : α → List β)
    (code : Zipper β)
    (zipper : Zipper α) : Prop where
  left : code.left.reverse = zipper.left.reverse.flatMap encode
  right : code.right = zipper.right.flatMap encode

variable {encode : α → List β} {code : Zipper β} {zipper : Zipper α}

/-- The whole list is encoded. -/
theorem Encodes.toList (encodes : Encodes encode code zipper) :
    code.toList = zipper.toList.flatMap encode := by
  rw [Zipper.toList, Zipper.toList, encodes.left, encodes.right,
    List.flatMap_append]

/-- The whole list and the cursor are those of the code of the sides. -/
theorem encodes_iff :
    Encodes encode code zipper ↔
      code.toList = zipper.toList.flatMap encode ∧
        code.index = (zipper.left.reverse.flatMap encode).length := by
  constructor
  · intro encodes
    refine ⟨encodes.toList, ?_⟩
    rw [← encodes.left, List.length_reverse]
    rfl
  · rintro ⟨whole, index⟩
    have sameLength :
        code.left.reverse.length =
          (zipper.left.reverse.flatMap encode).length := by
      rw [List.length_reverse]
      exact index
    rw [Zipper.toList, Zipper.toList, List.flatMap_append] at whole
    obtain ⟨left, right⟩ := List.append_inj whole sameLength
    exact ⟨left, right⟩

/-- An element is inserted by inserting its code. -/
theorem Encodes.insert
    (encodes : Encodes encode code zipper)
    (element : α) :
    Encodes encode (code.insertAll (encode element))
      (zipper.insert element) where
  left := by
    simp [insertAll_eq, Zipper.insert, encodes.left]
  right := by
    rw [insertAll_eq]
    exact encodes.right

/-- The code before the cursor ends with the code of the last element. -/
theorem Encodes.left_cons
    {element : α}
    {left : List α}
    {right : List α}
    (encodes : Encodes encode code ⟨element :: left, right⟩) :
    code.left.reverse = left.reverse.flatMap encode ++ encode element := by
  rw [encodes.left]
  simp

/--
Erasing one symbol of the code erases an element exactly if there is none or
its code is a single symbol.
-/
theorem Encodes.eraseLeft_iff
    (nonempty : ∀ element, encode element ≠ [])
    (encodes : Encodes encode code zipper) :
    Encodes encode code.eraseLeft zipper.eraseLeft ↔
      ∀ element ∈ zipper.left.head?, (encode element).length = 1 := by
  rcases zipper with ⟨left, right⟩
  cases left with
  | nil =>
      have empty : code.left = [] := by
        simpa using encodes.left
      refine iff_of_true ⟨?_, encodes.right⟩ (by simp)
      simp [eraseLeft, empty]
  | cons element left =>
      have ends := encodes.left_cons
      simp only [List.head?_cons, Option.mem_def, Option.some.injEq,
        forall_eq']
      constructor
      · intro erased
        have shorter := congrArg List.length erased.left
        have whole := congrArg List.length ends
        have positive := List.length_pos_iff.mpr (nonempty element)
        simp only [eraseLeft, List.length_reverse, List.length_tail,
          List.tail_cons, List.length_append] at shorter whole
        omega
      · intro single
        obtain ⟨symbol, isSymbol⟩ := List.length_eq_one_iff.mp single
        refine ⟨?_, encodes.right⟩
        rw [isSymbol] at ends
        have shape := congrArg List.reverse ends
        rw [List.reverse_reverse, List.reverse_append] at shape
        simp [eraseLeft, shape]

/-- So does moving back over one symbol of the code. -/
theorem Encodes.moveLeft_iff
    (nonempty : ∀ element, encode element ≠ [])
    (encodes : Encodes encode code zipper) :
    Encodes encode code.moveLeft zipper.moveLeft ↔
      ∀ element ∈ zipper.left.head?, (encode element).length = 1 := by
  rcases zipper with ⟨left, right⟩
  cases left with
  | nil =>
      have empty : code.left = [] := by
        simpa using encodes.left
      refine iff_of_true ?_ (by simp)
      rw [moveLeft, empty]
      exact encodes
  | cons element left =>
      rw [← encodes.eraseLeft_iff nonempty]
      constructor
      · intro moved
        have sameLeft := moved.left
        rw [left_moveLeft code] at sameLeft
        exact ⟨sameLeft, encodes.right⟩
      · intro erased
        have single :=
          (encodes.eraseLeft_iff nonempty).mp erased element rfl
        obtain ⟨symbol, isSymbol⟩ := List.length_eq_one_iff.mp single
        have shape := congrArg List.reverse encodes.left_cons
        rw [isSymbol, List.reverse_reverse, List.reverse_append] at shape
        rw [moveLeft, shape]
        exact ⟨by simp [moveLeft],
          by simp [moveLeft, isSymbol, encodes.right]⟩

/-- And moving over one symbol of the code. -/
theorem Encodes.moveRight_iff
    (nonempty : ∀ element, encode element ≠ [])
    (encodes : Encodes encode code zipper) :
    Encodes encode code.moveRight zipper.moveRight ↔
      ∀ element ∈ zipper.right.head?, (encode element).length = 1 := by
  rcases zipper with ⟨left, right⟩
  cases right with
  | nil =>
      have empty : code.right = [] := encodes.right
      refine iff_of_true ?_ (by simp)
      rw [moveRight, empty]
      exact encodes
  | cons element right =>
      have begins : code.right = encode element ++ right.flatMap encode :=
        encodes.right
      simp only [List.head?_cons, Option.mem_def, Option.some.injEq,
        forall_eq']
      constructor
      · intro moved
        have shorter := congrArg List.length moved.right
        have whole := congrArg List.length begins
        have positive := List.length_pos_iff.mpr (nonempty element)
        simp only [right_moveRight, List.tail_cons, List.length_tail,
          List.length_append] at shorter whole
        omega
      · intro single
        obtain ⟨symbol, isSymbol⟩ := List.length_eq_one_iff.mp single
        rw [isSymbol] at begins
        rw [moveRight, begins]
        exact ⟨by simp [moveRight, isSymbol, encodes.left],
          by simp [moveRight]⟩

end Encoded

end Zipper

end Foundation
