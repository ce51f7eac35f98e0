import Mathlib.Data.List.Induction
import Mathlib.Data.List.Sort

namespace Foundation.Ruby

/-!
# Strings and arrays of Ruby

A string is the list of its characters.  The characters of a binary string are
its bytes, so that no method here raises for an encoding.  An index below zero
counts from the end, and what lies outside is `nil`.  A slice is cut out of a
string or of an array.  Splitting a string drops the empty fields at its end.
-/

/-! ## Indices -/

variable {α : Type}

/-- The place that an index denotes. -/
def place (list : List α) (index : Int) : Int :=
  if index < 0 then
    index + list.length
  else
    index

/-- `list[index]`. -/
def element? (list : List α) (index : Int) : Option α :=
  if 0 ≤ place list index then
    list[(place list index).toNat]?
  else
    none

/-- `list[0...stop]`. -/
def sliceBefore (list : List α) (stop : Int) : List α :=
  list.take (place list stop).toNat

/-- `list[start..-1]`. -/
def sliceFrom? (list : List α) (start : Int) : Option (List α) :=
  if 0 ≤ place list start ∧ place list start ≤ list.length then
    some (list.drop (place list start).toNat)
  else
    none

/-- An index that is not negative counts from the start. -/
theorem place_ofNat
    (list : List α)
    (index : Nat) :
    place list index = index := by
  rw [place, if_neg (Int.not_lt.mpr (Int.natCast_nonneg index))]

/-- A natural number indexes as usual. -/
theorem element?_ofNat
    (list : List α)
    (index : Nat) :
    element? list index = list[index]? := by
  simp [element?, place_ofNat]

/-- A slice up to a natural number is a prefix of that length. -/
theorem sliceBefore_ofNat
    (list : List α)
    (stop : Nat) :
    sliceBefore list stop = list.take stop := by
  simp [sliceBefore, place_ofNat]

/-- A slice from a place inside the list is the rest of the list. -/
theorem sliceFrom?_ofNat
    {list : List α}
    {start : Nat}
    (inside : start ≤ list.length) :
    sliceFrom? list start = some (list.drop start) := by
  simp [sliceFrom?, place_ofNat, inside]

/-! ## Fields -/

/-- `string.split(separator)`, for a separator of one character. -/
def split [BEq α] (separator : α) (string : List α) : List (List α) :=
  ((string.splitOn separator).reverse.dropWhile List.isEmpty).reverse

/-- `fields.join(separator)`. -/
def join (separator : α) (fields : List (List α)) : List α :=
  [separator].intercalate fields

/-- Fields written one after the other are found again. -/
theorem splitOn_append_fields
    [BEq α]
    [LawfulBEq α]
    {separator : α}
    {first : List α}
    {fields : List (List α)}
    (clean : ∀ field ∈ first :: fields, separator ∉ field) :
    (first ++ fields.flatMap (separator :: ·)).splitOn separator =
      first :: fields := by
  induction fields generalizing first with
  | nil =>
      rw [List.flatMap_nil, List.append_nil]
      exact List.splitOn_eq_singleton (clean first List.mem_cons_self)
  | cons second fields inductionHypothesis =>
      obtain ⟨cleanFirst, cleanRest⟩ := List.forall_mem_cons.mp clean
      rw [List.flatMap_cons, List.cons_append,
        List.splitOn_append_cons_self_of_not_mem cleanFirst,
        inductionHypothesis cleanRest]

/-- Nothing is dropped from fields that do not end in an empty one. -/
theorem dropWhile_reverse_reverse
    {fields : List (List α)}
    (last : ∀ field ∈ fields.getLast?, field ≠ []) :
    (fields.reverse.dropWhile List.isEmpty).reverse = fields := by
  cases shape : fields.reverse with
  | nil =>
      rw [List.reverse_eq_nil_iff.mp shape]
      rfl
  | cons field rest =>
      have isLast : fields.getLast? = some field := by
        rw [← List.head?_reverse, shape, List.head?_cons]
      have notEmpty : field.isEmpty = false :=
        List.isEmpty_eq_false_iff.mpr (last field isLast)
      rw [List.dropWhile_cons_of_neg (by simp [notEmpty]), ← shape,
        List.reverse_reverse]

/-- Fields that do not end in an empty one are split as they were written. -/
theorem split_append_fields
    [BEq α]
    [LawfulBEq α]
    {separator : α}
    {first : List α}
    {fields : List (List α)}
    (clean : ∀ field ∈ first :: fields, separator ∉ field)
    (last : ∀ field ∈ (first :: fields).getLast?, field ≠ []) :
    split separator (first ++ fields.flatMap (separator :: ·)) =
      first :: fields := by
  rw [split, splitOn_append_fields clean, dropWhile_reverse_reverse last]

/-- Joined fields, with the separator in front of all but the first. -/
theorem join_cons
    (separator : α)
    (first : List α)
    (fields : List (List α)) :
    join separator (first :: fields) =
      first ++ fields.flatMap (separator :: ·) := by
  induction fields generalizing first with
  | nil =>
      simp [join]
  | cons second fields inductionHypothesis =>
      have rest := inductionHypothesis second
      rw [join] at rest ⊢
      rw [List.intercalate_cons_cons, rest]
      simp

/-- Terminated fields are joined ones with one more separator. -/
theorem flatten_terminated
    {separator : α}
    {fields : List (List α)}
    (nonempty : fields ≠ []) :
    (fields.map (· ++ [separator])).flatten =
      join separator fields ++ [separator] := by
  induction fields with
  | nil =>
      exact absurd rfl nonempty
  | cons first rest inductionHypothesis =>
      cases rest with
      | nil =>
          simp [join]
      | cons second rest =>
          have later := inductionHypothesis (List.cons_ne_nil second rest)
          rw [List.map_cons, List.flatten_cons, later, join, join,
            List.intercalate_cons_cons, List.append_assoc,
            List.append_assoc, List.append_assoc]

/-- Joining what was split gives the string. -/
theorem join_splitOn
    [BEq α]
    [LawfulBEq α]
    (separator : α)
    (string : List α) :
    join separator (string.splitOn separator) = string :=
  List.intercalate_splitOn separator

/-- No field contains the separator. -/
theorem not_mem_of_mem_splitOn
    [BEq α]
    [LawfulBEq α]
    {separator : α}
    {string field : List α}
    (isField : field ∈ string.splitOn separator) :
    separator ∉ field := by
  induction string generalizing field with
  | nil =>
      rw [List.splitOn_nil, List.mem_singleton] at isField
      rw [isField]
      exact List.not_mem_nil
  | cons first rest inductionHypothesis =>
      rw [List.splitOn_cons_eq_if_modifyHead] at isField
      by_cases separates : (first == separator) = true
      · rw [if_pos separates, List.mem_cons] at isField
        rcases isField with rfl | later
        · exact List.not_mem_nil
        · exact inductionHypothesis later
      · rw [if_neg separates] at isField
        cases shape : rest.splitOn separator with
        | nil =>
            exact absurd shape (List.splitOn_ne_nil separator rest)
        | cons head tail =>
            rw [shape] at inductionHypothesis
            rw [shape, List.modifyHead_cons, List.mem_cons] at isField
            rcases isField with rfl | later
            · rw [List.mem_cons, not_or]
              refine ⟨fun same => ?_, inductionHypothesis List.mem_cons_self⟩
              exact separates (beq_iff_eq.mpr same.symm)
            · exact inductionHypothesis (List.mem_cons_of_mem _ later)

/-- A character that does not separate joins the last field. -/
theorem splitOn_concat
    [BEq α]
    [LawfulBEq α]
    {separator last : α}
    {string field : List α}
    {fields : List (List α)}
    (shape : string.splitOn separator = fields ++ [field])
    (notSeparator : last ≠ separator) :
    (string ++ [last]).splitOn separator = fields ++ [field ++ [last]] := by
  have clean : ∀ piece ∈ fields ++ [field], separator ∉ piece := by
    rw [← shape]
    exact fun _ => not_mem_of_mem_splitOn
  have cleanLonger :
      ∀ piece ∈ fields ++ [field ++ [last]], separator ∉ piece := by
    simpa [or_imp, forall_and, notSeparator.symm] using clean
  have joined := join_splitOn separator string
  rw [shape] at joined
  cases fields with
  | nil =>
      have whole : field = string := by
        simpa [join] using joined
      rw [← whole]
      exact List.splitOn_eq_singleton (cleanLonger _ List.mem_cons_self)
  | cons first fields =>
      have found := splitOn_append_fields cleanLonger
      rw [List.cons_append, join_cons, List.flatMap_append] at joined
      rw [← joined]
      simpa using found

/-- What is split off is a field. -/
theorem not_mem_of_mem_split
    [BEq α]
    [LawfulBEq α]
    {separator : α}
    {string field : List α}
    (isField : field ∈ split separator string) :
    separator ∉ field := by
  have kept := List.mem_reverse.mp isField
  have member := (List.dropWhile_sublist List.isEmpty).mem kept
  exact not_mem_of_mem_splitOn (List.mem_reverse.mp member)

/-- The fields come first among those that `splitOn` finds. -/
theorem split_prefix_splitOn
    [BEq α]
    (separator : α)
    (string : List α) :
    split separator string <+: string.splitOn separator := by
  rw [split, ← List.reverse_suffix, List.reverse_reverse]
  exact List.dropWhile_suffix _

/-- If there are fields, the first one is what stands before a separator. -/
theorem head?_split
    [BEq α]
    [LawfulBEq α]
    {separator : α}
    {first : List α}
    (rest : List α)
    (clean : separator ∉ first)
    (nonempty : split separator (first ++ separator :: rest) ≠ []) :
    (split separator (first ++ separator :: rest)).head? = some first := by
  obtain ⟨dropped, all⟩ :=
    split_prefix_splitOn separator (first ++ separator :: rest)
  rw [List.splitOn_append_cons_self_of_not_mem clean] at all
  generalize split separator (first ++ separator :: rest) = fields
    at all nonempty ⊢
  cases fields with
  | nil =>
      exact absurd rfl nonempty
  | cons field fields =>
      rw [List.cons_append] at all
      exact congrArg some (List.cons.inj all).1

/-- A separator at the end makes no field. -/
theorem split_concat_separator
    [BEq α]
    [LawfulBEq α]
    (separator : α)
    (string : List α) :
    split separator (string ++ [separator]) = split separator string := by
  rw [split, List.splitOn_append_cons_self, List.splitOn_nil,
    List.reverse_append]
  rfl

/-- Nor do several. -/
theorem split_append_separators
    [BEq α]
    [LawfulBEq α]
    (separator : α)
    (string : List α)
    (count : Nat) :
    split separator (string ++ List.replicate count separator) =
      split separator string := by
  induction count with
  | zero =>
      rw [List.replicate_zero, List.append_nil]
  | succ count inductionHypothesis =>
      rw [List.replicate_succ', ← List.append_assoc,
        split_concat_separator, inductionHypothesis]

/-- A string that does not end in a separator loses no field. -/
theorem split_concat
    [BEq α]
    [LawfulBEq α]
    {separator last : α}
    (string : List α)
    (notSeparator : last ≠ separator) :
    split separator (string ++ [last]) =
      (string ++ [last]).splitOn separator := by
  refine dropWhile_reverse_reverse fun field isLast => ?_
  rintro rfl
  have joined := join_splitOn separator (string ++ [last])
  obtain ⟨init, shape⟩ := List.getLast?_eq_some_iff.mp isLast
  rw [shape] at joined
  cases init with
  | nil =>
      exact List.append_ne_nil_of_right_ne_nil string
        (List.cons_ne_nil last []) joined.symm
  | cons first init =>
      rw [List.cons_append, join_cons, List.flatMap_append,
        ← List.append_assoc] at joined
      have sameEnd := (List.append_inj' joined rfl).2
      exact notSeparator (List.cons.inj sameEnd).1.symm

/-- The part of a string before the separators at its end. -/
theorem exists_append_separators
    (separator : α)
    (string : List α) :
    ∃ core count,
      string = core ++ List.replicate count separator ∧
        (core = [] ∨
          ∃ text last, last ≠ separator ∧ core = text ++ [last]) := by
  induction string using List.reverseRecOn with
  | nil =>
      exact ⟨[], 0, rfl, .inl rfl⟩
  | append_singleton text last inductionHypothesis =>
      by_cases separates : last = separator
      · obtain ⟨core, count, rfl, ends⟩ := inductionHypothesis
        refine ⟨core, count + 1, ?_, ends⟩
        rw [separates, List.replicate_succ', List.append_assoc]
      · refine ⟨text ++ [last], 0, ?_, .inr ⟨text, last, separates, rfl⟩⟩
        rw [List.replicate_zero, List.append_nil]

/-- There are no fields in a string of separators only. -/
theorem split_eq_nil_iff
    [BEq α]
    [LawfulBEq α]
    {separator : α}
    {string : List α} :
    split separator string = [] ↔
      ∃ count, string = List.replicate count separator := by
  obtain ⟨core, count, rfl, ends⟩ :=
    exists_append_separators separator string
  rw [split_append_separators]
  rcases ends with rfl | ⟨text, last, notSeparator, rfl⟩
  · exact iff_of_true rfl ⟨count, List.nil_append _⟩
  · rw [split_concat text notSeparator]
    refine iff_of_false (List.splitOn_ne_nil separator _) ?_
    rintro ⟨total, onlySeparators⟩
    have member : last ∈ List.replicate total separator := by
      rw [← onlySeparators]
      simp
    exact notSeparator (List.eq_of_mem_replicate member)

/-! ## Hashes -/

variable {Key Value : Type}

/-- A hash keeps the order in which its keys were first stored. -/
abbrev Hash (Key Value : Type) := List (Key × Value)

/-- `hash.keys`. -/
def Hash.keys (hash : Hash Key Value) : List Key :=
  hash.map Prod.fst

/-- `hash[key] = value`. -/
def Hash.store
    [DecidableEq Key]
    (hash : Hash Key Value)
    (key : Key)
    (value : Value) : Hash Key Value :=
  if key ∈ hash.keys then
    hash.map fun entry => if entry.1 = key then (key, value) else entry
  else
    hash ++ [(key, value)]

/-- `hash[key]`. -/
def Hash.value?
    [DecidableEq Key]
    (hash : Hash Key Value)
    (key : Key) : Option Value :=
  (hash.find? fun entry => entry.1 = key).map Prod.snd

/-- `hash.delete(key)`. -/
def Hash.delete
    [DecidableEq Key]
    (hash : Hash Key Value)
    (key : Key) : Hash Key Value :=
  hash.filter fun entry => entry.1 ≠ key

/-- Storing adds a key and keeps the others. -/
theorem Hash.mem_keys_store
    [DecidableEq Key]
    {hash : Hash Key Value}
    {key other : Key}
    {value : Value} :
    other ∈ (hash.store key value).keys ↔ other = key ∨ other ∈ hash.keys := by
  by_cases present : key ∈ hash.keys
  · have same : (hash.store key value).keys = hash.keys := by
      rw [store, if_pos present, keys, List.map_map]
      refine List.map_congr_left fun entry _ => ?_
      simp only [Function.comp_apply]
      split
      · exact Eq.symm ‹_›
      · rfl
    rw [same]
    constructor
    · exact .inr
    · rintro (rfl | member)
      · exact present
      · exact member
  · rw [store, if_neg present, keys, List.map_append, List.mem_append]
    simp [keys, or_comm]

/-- What was stored is found. -/
theorem Hash.value?_store
    [DecidableEq Key]
    (hash : Hash Key Value)
    (key : Key)
    (value : Value) :
    (hash.store key value).value? key = some value := by
  by_cases present : key ∈ hash.keys
  · rw [store, if_pos present, value?, List.find?_map]
    obtain ⟨entry, member, isKey⟩ := List.mem_map.mp present
    cases found : hash.find? fun entry => entry.1 = key with
    | none =>
        have absent := List.find?_eq_none.mp found entry member
        simp [isKey] at absent
    | some first =>
        have isFirst : first.1 = key := by
          simpa using List.find?_some found
        have sameTest :
            ((fun entry : Key × Value => decide (entry.1 = key)) ∘
                fun entry => if entry.1 = key then (key, value) else entry) =
              fun entry => decide (entry.1 = key) := by
          funext other
          by_cases isKey : other.1 = key
          · simp [isKey]
          · simp [isKey]
        rw [sameTest, found]
        simp [isFirst]
  · have absent : (hash.find? fun entry => entry.1 = key) = none := by
      rw [List.find?_eq_none]
      intro entry member isKey
      rw [decide_eq_true_eq] at isKey
      exact present (List.mem_map.mpr ⟨entry, member, isKey⟩)
    rw [store, if_neg present, value?, List.find?_append, absent]
    simp

/-- Deleting removes a key and keeps the others. -/
theorem Hash.mem_keys_delete
    [DecidableEq Key]
    {hash : Hash Key Value}
    {key other : Key} :
    other ∈ (hash.delete key).keys ↔ other ≠ key ∧ other ∈ hash.keys := by
  simp only [delete, keys, List.mem_map, List.mem_filter,
    decide_eq_true_eq]
  constructor
  · rintro ⟨entry, ⟨member, kept⟩, rfl⟩
    exact ⟨kept, entry, member, rfl⟩
  · rintro ⟨kept, entry, member, rfl⟩
    exact ⟨entry, ⟨member, kept⟩, rfl⟩

/-- Storing leaves what other keys have. -/
theorem Hash.value?_store_other
    [DecidableEq Key]
    (hash : Hash Key Value)
    {key other : Key}
    (value : Value)
    (different : other ≠ key) :
    (hash.store key value).value? other = hash.value? other := by
  rw [store, value?, value?]
  split
  · rw [List.find?_map, Option.map_map]
    have sameTest :
        ((fun entry : Key × Value => decide (entry.1 = other)) ∘
            fun entry => if entry.1 = key then (key, value) else entry) =
          fun entry => decide (entry.1 = other) := by
      funext entry
      by_cases isKey : entry.1 = key
      · simp [isKey]
      · simp [isKey]
    rw [sameTest]
    cases found : hash.find? fun entry => entry.1 = other with
    | none =>
        rfl
    | some entry =>
        have isOther : entry.1 = other := by
          simpa using List.find?_some found
        have notKey : entry.1 ≠ key := by rwa [isOther]
        simp [notKey]
  · rw [List.find?_append]
    have notFirst : ¬key = other := fun same => different same.symm
    simp [notFirst]

/-- A deleted key has nothing, and other keys have what they had. -/
theorem Hash.value?_delete
    [DecidableEq Key]
    (hash : Hash Key Value)
    (key other : Key) :
    (hash.delete key).value? other =
      if other = key then none else hash.value? other := by
  rw [delete, value?, value?, List.find?_filter]
  simp only [decide_eq_true_eq]
  by_cases same : other = key
  · have nothing :
        (hash.find? fun entry => decide (entry.1 ≠ key ∧ entry.1 = other)) =
          none := by
      simp [same]
    rw [nothing, if_pos same]
    rfl
  · have sameTest :
        (fun entry : Key × Value =>
            decide (entry.1 ≠ key ∧ entry.1 = other)) =
          fun entry => decide (entry.1 = other) := by
      funext entry
      by_cases isOther : entry.1 = other
      · simp [isOther, same]
      · simp [isOther]
    rw [sameTest, if_neg same]

/-- The keys are those that have something. -/
theorem Hash.isSome_value?
    [DecidableEq Key]
    (hash : Hash Key Value)
    (key : Key) :
    (hash.value? key).isSome ↔ key ∈ hash.keys := by
  rw [value?, Option.isSome_map, List.find?_isSome, keys, List.mem_map]
  simp only [decide_eq_true_eq]

/-- No key is stored twice. -/
theorem Hash.nodup_keys_store
    [DecidableEq Key]
    {hash : Hash Key Value}
    (once : hash.keys.Nodup)
    (key : Key)
    (value : Value) :
    (hash.store key value).keys.Nodup := by
  by_cases present : key ∈ hash.keys
  · have same : (hash.store key value).keys = hash.keys := by
      rw [store, if_pos present, keys, List.map_map]
      refine List.map_congr_left fun entry _ => ?_
      simp only [Function.comp_apply]
      split
      · exact Eq.symm ‹_›
      · rfl
    rwa [same]
  · rw [store, if_neg present, keys, List.map_append]
    refine List.nodup_append'.mpr ⟨once, List.nodup_singleton key, ?_⟩
    exact List.disjoint_singleton.mpr present

theorem Hash.nodup_keys_delete
    [DecidableEq Key]
    {hash : Hash Key Value}
    (once : hash.keys.Nodup)
    (key : Key) :
    (hash.delete key).keys.Nodup :=
  once.sublist (List.filter_sublist.map _)

/-- An entry is what its key has. -/
theorem Hash.value?_of_mem
    [DecidableEq Key]
    {hash : Hash Key Value}
    (once : hash.keys.Nodup)
    {entry : Key × Value}
    (member : entry ∈ hash) :
    hash.value? entry.1 = some entry.2 := by
  induction hash with
  | nil =>
      exact absurd member List.not_mem_nil
  | cons first rest inductionHypothesis =>
      obtain ⟨notAgain, onceRest⟩ := List.nodup_cons.mp once
      rcases List.mem_cons.mp member with rfl | later
      · rw [value?, List.find?_cons_of_pos (by simp)]
        rfl
      · have different : ¬first.1 = entry.1 := fun same =>
          notAgain (same ▸ List.mem_map_of_mem later)
        rw [value?, List.find?_cons_of_neg (by simpa using different)]
        exact inductionHypothesis onceRest later

/-! ## Arrays -/

/-- Mapping succeeds when it does so for every element. -/
theorem mapM_some
    {β : Type}
    {map : α → Option β}
    {array : List α}
    (maps : ∀ element ∈ array, ∃ image, map element = some image) :
    ∃ images, array.mapM map = some images ∧
      ∀ image,
        image ∈ images ↔ ∃ element ∈ array, map element = some image := by
  induction array with
  | nil =>
      exact ⟨[], rfl, by simp⟩
  | cons first rest inductionHypothesis =>
      obtain ⟨⟨image, mapped⟩, mapsRest⟩ := List.forall_mem_cons.mp maps
      obtain ⟨images, mappedRest, exactly⟩ := inductionHypothesis mapsRest
      refine ⟨image :: images, ?_, ?_⟩
      · rw [List.mapM_cons, mapped, mappedRest]
        rfl
      · intro other
        simp only [List.mem_cons, exactly, exists_eq_or_imp, mapped,
          Option.some_inj]
        exact or_congr_left eq_comm

/-- Mapping fails if it does so for one element. -/
theorem maps_of_mapM_some
    {β : Type}
    {map : α → Option β}
    {array : List α}
    {images : List β}
    (mapped : array.mapM map = some images) :
    ∀ element ∈ array, ∃ image, map element = some image := by
  induction array generalizing images with
  | nil =>
      exact List.forall_mem_nil _
  | cons first rest inductionHypothesis =>
      rw [List.mapM_cons, Option.bind_eq_bind, Option.bind_eq_some_iff]
        at mapped
      obtain ⟨image, mappedFirst, mappedRest⟩ := mapped
      rw [Option.bind_eq_bind, Option.bind_eq_some_iff] at mappedRest
      obtain ⟨others, mappedRest, -⟩ := mappedRest
      exact List.forall_mem_cons.mpr
        ⟨⟨image, mappedFirst⟩, inductionHypothesis mappedRest⟩

/-- `array.uniq.sort`. -/
def uniqSort
    [BEq α]
    [LE α]
    [DecidableLE α]
    (array : List α) : List α :=
  array.eraseDups.insertionSort (· ≤ ·)

/-- Nothing is repeated after `uniq`. -/
theorem nodup_eraseDups
    [BEq α]
    [LawfulBEq α]
    (array : List α) :
    array.eraseDups.Nodup := by
  induction length : array.length using Nat.strongRecOn generalizing array with
  | ind bound inductionHypothesis =>
      cases array with
      | nil =>
          exact List.nodup_nil
      | cons first rest =>
          have shorter :
              (rest.filter fun other => !other == first).length < bound := by
            rw [← length, List.length_cons]
            exact Nat.lt_succ_of_le (List.length_filter_le _ rest)
          rw [List.eraseDups_cons, List.nodup_cons, List.mem_eraseDups]
          refine ⟨?_, inductionHypothesis _ shorter _ rfl⟩
          simp

/-- The elements are those of the array. -/
theorem mem_uniqSort
    [BEq α]
    [LawfulBEq α]
    [LE α]
    [DecidableLE α]
    {array : List α}
    {element : α} :
    element ∈ uniqSort array ↔ element ∈ array := by
  rw [uniqSort, List.mem_insertionSort, List.mem_eraseDups]

/-- The elements ascend. -/
theorem ascending_uniqSort
    [BEq α]
    [LawfulBEq α]
    [LE α]
    [LT α]
    [DecidableLE α]
    [Std.IsLinearOrder α]
    [Std.LawfulOrderLT α]
    (array : List α) :
    (uniqSort array).Pairwise (· < ·) := by
  have sorted : (uniqSort array).Pairwise (· ≤ ·) :=
    List.pairwise_insertionSort _ _
  have nodup : (uniqSort array).Nodup :=
    (List.perm_insertionSort _ _).nodup_iff.mpr (nodup_eraseDups array)
  exact (sorted.and nodup).imp fun ⟨least, different⟩ =>
    Std.lt_of_le_of_ne least different

/-- `array.each_slice(size)`, after some elements of the first slice. -/
def slicesFrom (size : Nat) (slice : List α) : List α → List (List α)
  | [] => if slice = [] then [] else [slice]
  | element :: array =>
      if (slice ++ [element]).length = size then
        (slice ++ [element]) :: slicesFrom size [] array
      else
        slicesFrom size (slice ++ [element]) array

/-- `array.each_slice(size)`. -/
def eachSlice (size : Nat) (array : List α) : List (List α) :=
  slicesFrom size [] array

/-- The slices are the array. -/
theorem flatten_slicesFrom
    (size : Nat)
    (slice array : List α) :
    (slicesFrom size slice array).flatten = slice ++ array := by
  induction array generalizing slice with
  | nil =>
      rw [slicesFrom]
      split
      · simp [*]
      · simp
  | cons element array inductionHypothesis =>
      rw [slicesFrom]
      split
      · rw [List.flatten_cons, inductionHypothesis, List.nil_append,
          List.append_assoc, List.singleton_append]
      · rw [inductionHypothesis, List.append_assoc, List.singleton_append]

/-- No slice is empty. -/
theorem slice_ne_nil
    (size : Nat)
    (current array : List α) :
    ∀ slice ∈ slicesFrom size current array, slice ≠ [] := by
  induction array generalizing current with
  | nil =>
      rw [slicesFrom]
      split
      · exact List.forall_mem_nil _
      · rw [List.forall_mem_singleton]
        assumption
  | cons element array inductionHypothesis =>
      rw [slicesFrom]
      split
      · exact List.forall_mem_cons.mpr
          ⟨List.append_ne_nil_of_right_ne_nil _ (List.cons_ne_nil _ _),
            inductionHypothesis []⟩
      · exact inductionHypothesis _

/-- What is joined in two parts is joined. -/
theorem intercalate_append
    (separator : List α)
    {first second : List (List α)}
    (nonemptyFirst : first ≠ [])
    (nonemptySecond : second ≠ []) :
    separator.intercalate (first ++ second) =
      separator.intercalate first ++
        (separator ++ separator.intercalate second) := by
  induction first with
  | nil =>
      exact absurd rfl nonemptyFirst
  | cons field first inductionHypothesis =>
      cases first with
      | nil =>
          rw [List.singleton_append,
            List.intercalate_cons_of_ne_nil nonemptySecond,
            List.intercalate_singleton, List.append_assoc]
      | cons next first =>
          rw [List.cons_append, List.cons_append,
            List.intercalate_cons_cons, List.intercalate_cons_cons,
            ← List.cons_append,
            inductionHypothesis (List.cons_ne_nil next first)]
          simp only [List.append_assoc]

/-- What is joined in lines with the same separator is joined. -/
theorem intercalate_map_intercalate
    (separator : List α)
    {lines : List (List (List α))}
    (nonempty : ∀ line ∈ lines, line ≠ []) :
    separator.intercalate (lines.map separator.intercalate) =
      separator.intercalate lines.flatten := by
  induction lines with
  | nil =>
      rfl
  | cons line lines inductionHypothesis =>
      obtain ⟨nonemptyLine, nonemptyRest⟩ := List.forall_mem_cons.mp nonempty
      cases lines with
      | nil =>
          simp
      | cons next lines =>
          have nonemptyNext : (next :: lines).flatten ≠ [] := by
            rw [List.flatten_cons]
            exact List.append_ne_nil_of_left_ne_nil
              (nonemptyRest next List.mem_cons_self) _
          rw [List.map_cons, List.map_cons, List.intercalate_cons_cons,
            ← List.map_cons, inductionHypothesis nonemptyRest,
            @List.flatten_cons _ line, intercalate_append separator
              nonemptyLine nonemptyNext, List.append_assoc]

/-! ## Substituting and selecting -/

/-- `string.gsub(letter, replacement)`. -/
def gsub
    [DecidableEq α]
    (letter : α)
    (replacement : List α)
    (string : List α) :
    List α :=
  string.flatMap fun other => if other = letter then replacement else [other]

/-- A letter that is not replaced stays. -/
theorem gsub_other
    [DecidableEq α]
    {letter other : α}
    {replacement string : List α}
    (different : other ≠ letter) :
    gsub letter replacement (other :: string) =
      other :: gsub letter replacement string := by
  rw [gsub, List.flatMap_cons, if_neg different]
  rfl

/-- A letter that is replaced. -/
theorem gsub_letter
    [DecidableEq α]
    {letter : α}
    {replacement string : List α} :
    gsub letter replacement (letter :: string) =
      replacement ++ gsub letter replacement string := by
  rw [gsub, List.flatMap_cons, if_pos rfl]
  rfl

/-- `gsub` for a pattern of several letters; `skip` letters are matched. -/
def gsubFrom
    [DecidableEq α]
    (pattern : List α)
    (replacement : List α) :
    Nat → List α → List α
  | _, [] => []
  | skip + 1, _ :: string => gsubFrom pattern replacement skip string
  | 0, letter :: string =>
      if pattern.isPrefixOf (letter :: string) then
        replacement ++
          gsubFrom pattern replacement (pattern.length - 1) string
      else
        letter :: gsubFrom pattern replacement 0 string

/-- `string.gsub(pattern, replacement)`, for a pattern that is not empty. -/
def gsubString
    [DecidableEq α]
    (pattern : List α)
    (replacement : List α)
    (string : List α) :
    List α :=
  gsubFrom pattern replacement 0 string

/-- The fields left when each two separators in a row become one. -/
def mergePairs : List (List α) → List (List α)
  | first :: [] :: third :: rest => first :: mergePairs (third :: rest)
  | first :: rest => first :: mergePairs rest
  | [] => []

/-- The fields do not start between two separators. -/
abbrev Unpaired (fields : List (List α)) : Prop :=
  ∀ third rest, fields ≠ [] :: third :: rest

/-- A field that no pair of separators follows. -/
theorem mergePairs_cons
    {fields : List (List α)}
    (unpaired : Unpaired fields)
    (first : List α) :
    mergePairs (first :: fields) = first :: mergePairs fields := by
  refine mergePairs.eq_2 first fields ?_
  intro third rest pair
  exact unpaired third rest pair

/-- The first field has no influence on the others. -/
theorem mergePairs_modifyHead
    (change : List α → List α)
    (fields : List (List α)) :
    mergePairs (fields.modifyHead change) =
      (mergePairs fields).modifyHead change := by
  fun_cases mergePairs fields with
  | case1 first third rest =>
      rfl
  | case2 first rest unpaired =>
      rw [List.modifyHead_cons, mergePairs_cons unpaired,
        List.modifyHead_cons]
  | case3 =>
      rfl

/-- Fields that are not empty are kept in front of others. -/
theorem mergePairs_append
    {names : List (List α)}
    {fields : List (List α)}
    (nonempty : ∀ name ∈ names, name ≠ [])
    (unpaired : Unpaired fields) :
    mergePairs (names ++ fields) = names ++ mergePairs fields ∧
      Unpaired (names ++ fields) := by
  induction names with
  | nil =>
      exact ⟨rfl, unpaired⟩
  | cons name names inductionHypothesis =>
      obtain ⟨notEmpty, others⟩ := List.forall_mem_cons.mp nonempty
      obtain ⟨merged, unpairedRest⟩ := inductionHypothesis others
      refine ⟨?_, ?_⟩
      · rw [List.cons_append, mergePairs_cons unpairedRest, merged,
          List.cons_append]
      · intro third rest pair
        rw [List.cons_append] at pair
        exact notEmpty (List.cons.inj pair).1

/-- Two separators in a row are replaced by one. -/
theorem gsub_pair_pair
    [DecidableEq α]
    (separator : α)
    (rest : List α) :
    gsubString [separator, separator] [separator]
        (separator :: separator :: rest) =
      separator :: gsubString [separator, separator] [separator] rest := by
  simp [gsubString, gsubFrom]

/-- The fields of what does not start with a separator are not paired. -/
theorem unpaired_splitOn
    [BEq α]
    [LawfulBEq α]
    {separator : α}
    {string : List α}
    (notSeparator : string.head? ≠ some separator) :
    Unpaired (string.splitOn separator) := by
  intro third rest fields
  have joined := join_splitOn separator string
  rw [fields, join_cons, List.nil_append, List.flatMap_cons] at joined
  rw [← joined] at notSeparator
  exact notSeparator rfl

/-- What does not start with two separators keeps its first letter. -/
theorem gsub_pair_other
    [DecidableEq α]
    {separator letter : α}
    {rest : List α}
    (noPair : letter = separator → rest.head? ≠ some separator) :
    gsubString [separator, separator] [separator] (letter :: rest) =
      letter :: gsubString [separator, separator] [separator] rest := by
  have notMatched :
      ¬ [separator, separator].isPrefixOf (letter :: rest) = true := by
    rw [List.isPrefixOf_iff_prefix, List.cons_prefix_cons]
    rintro ⟨rfl, second⟩
    refine noPair rfl ?_
    cases rest with
    | nil =>
        exact absurd (List.prefix_nil.mp second) (List.cons_ne_nil _ _)
    | cons other rest =>
        rw [← (List.cons_prefix_cons.mp second).1]
        rfl
  rw [gsubString, gsubFrom, if_neg notMatched]
  rfl

/-- Replacing two separators by one merges the pairs of separators. -/
theorem splitOn_gsub_pair
    [DecidableEq α]
    (separator : α)
    (string : List α) :
    (gsubString [separator, separator] [separator] string).splitOn separator =
      mergePairs (string.splitOn separator) := by
  induction length : string.length using Nat.strongRecOn
    generalizing string with
  | ind bound inductionHypothesis =>
      cases string with
      | nil =>
          rfl
      | cons letter rest =>
          have shorter : rest.length < bound := by
            rw [← length]
            exact Nat.lt_succ_self _
          have step := inductionHypothesis _ shorter rest rfl
          by_cases pair : letter = separator ∧ rest.head? = some separator
          · obtain ⟨rfl, second⟩ := pair
            obtain ⟨rest, rfl⟩ := List.head?_eq_some_iff.mp second
            have shorterRest : rest.length < bound :=
              Nat.lt_trans (Nat.lt_succ_self _) shorter
            have stepRest := inductionHypothesis _ shorterRest rest rfl
            cases fields : rest.splitOn letter with
            | nil =>
                exact absurd fields (List.splitOn_ne_nil letter rest)
            | cons first others =>
                simp only [gsub_pair_pair, List.splitOn_cons_eq_if_modifyHead,
                  beq_self_eq_true, if_true, stepRest, fields, mergePairs]
          · rw [gsub_pair_other (not_and.mp pair)]
            by_cases separates : letter = separator
            · subst separates
              have unpaired : Unpaired (rest.splitOn letter) :=
                unpaired_splitOn (not_and.mp pair rfl)
              simp only [List.splitOn_cons_eq_if_modifyHead,
                beq_self_eq_true, if_true, step, mergePairs_cons unpaired]
            · have notSeparator : (letter == separator) = false :=
                beq_eq_false_iff_ne.mpr separates
              simp only [List.splitOn_cons_eq_if_modifyHead, notSeparator,
                Bool.false_eq_true, if_false, step, mergePairs_modifyHead]

end Foundation.Ruby
