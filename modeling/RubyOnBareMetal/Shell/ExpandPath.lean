import RubyOnBareMetal.Shell.Normaliser

namespace RubyOnBareMetal.Shell

open Foundation

/-!
# `File.expand_path` of `ruby/scripts/init.rb`

The script resolves paths twice: `require_relative` keeps a stack of
components, `File.expand_path` substitutes one slash for two.  The first way
always gives a normalised path; the second one does for paths that are spelled
well.
-/

/-- `File.expand_path`; the base is `/` if the caller gives none. -/
def expandPath (path base : Path) : Path :=
  if [slash].isPrefixOf path then
    path
  else
    Ruby.gsubString [slash, slash] [slash] (base ++ [slash] ++ path)

/-- The location of a path, taken from a base unless the path is absolute. -/
def location (base path : Path) : Path :=
  if [slash].isPrefixOf path then
    normalizedPath ([slash] ++ [slash] ++ path)
  else
    normalizedPath (base ++ [slash] ++ path)

/-! ## Normalised paths -/

/-- A path of fields is normalised if it is `/` or they are components. -/
theorem normalised_pathOf_iff
    {fields : List Path}
    (clean : ∀ field ∈ fields, slash ∉ field)
    (nonempty : fields ≠ []) :
    Normalised (pathOf fields) ↔
      fields = [[]] ∨ ∀ field ∈ fields, IsComponent field := by
  have split : (pathOf fields).splitOn slash = [] :: fields :=
    Ruby.splitOn_append_fields
      (List.forall_mem_cons.mpr ⟨List.not_mem_nil, clean⟩)
  constructor
  · rintro ⟨components, names, notDots, same⟩
    by_cases root : components = []
    · left
      rw [same, directoryPath, if_pos root] at split
      exact (List.cons.inj split).2.symm
    · right
      rw [same, directoryPath, if_neg root, splitOn_pathOf names] at split
      rw [← (List.cons.inj split).2]
      exact fun component member =>
        ⟨(names component member).1, notDots component member⟩
  · rintro (rfl | components)
    · exact ⟨[], List.forall_mem_nil _, List.forall_mem_nil _, rfl⟩
    · refine ⟨fields, ?_, fun field member => (components field member).2, ?_⟩
      · exact fun field member =>
          ⟨(components field member).1, clean field member⟩
      · rw [directoryPath, if_neg nonempty]

/-! ## Paths that are spelled well -/

/-- No dots, no empty field at the end and no two of them in a row. -/
def PlainFields (fields : List Path) : Prop :=
  (∀ field ∈ fields, NotDots field) ∧
    fields.getLast? ≠ some [] ∧
      fields.IsChain fun field next => field ≠ [] ∨ next ≠ []

/-- No `.`, no `..`, no slash at the end and no three slashes in a row. -/
def PlainPath (path : Path) : Prop :=
  PlainFields (path.splitOn slash)

/-- The paths that the substitution resolves. -/
def WellSpelled (base path : Path) : Prop :=
  if [slash].isPrefixOf path then
    path = [slash] ∨ ∀ field ∈ (path.splitOn slash).tail, IsComponent field
  else if path = [] then
    base = [slash]
  else
    PlainPath path

/-- A field that is not empty in front of plain fields. -/
theorem plainFields_cons_iff
    {field next : Path}
    {more : List Path}
    (notEmpty : field ≠ []) :
    PlainFields (field :: next :: more) ↔
      NotDots field ∧ PlainFields (next :: more) := by
  rw [PlainFields, PlainFields, List.forall_mem_cons,
    List.getLast?_cons_cons, List.isChain_cons_cons]
  have chained : field ≠ [] ∨ next ≠ [] := .inl notEmpty
  constructor
  · rintro ⟨⟨notDots, others⟩, last, _, chain⟩
    exact ⟨notDots, others, last, chain⟩
  · rintro ⟨notDots, others, last, chain⟩
    exact ⟨⟨notDots, others⟩, last, chained, chain⟩

/-- An empty field is plain if another one follows. -/
theorem plainFields_nil_cons_iff
    {third : Path}
    {rest : List Path} :
    PlainFields ([] :: third :: rest) ↔
      third ≠ [] ∧ PlainFields (third :: rest) := by
  rw [PlainFields, PlainFields, List.forall_mem_cons,
    List.getLast?_cons_cons, List.isChain_cons_cons]
  constructor
  · rintro ⟨⟨_, others⟩, last, chained, chain⟩
    exact ⟨chained.resolve_left (fun absurdity => absurdity rfl),
      others, last, chain⟩
  · rintro ⟨notEmpty, others, last, chain⟩
    exact ⟨⟨by decide, others⟩, last, .inr notEmpty, chain⟩

/-- The first field stays. -/
theorem mem_mergePairs_first
    (first : Path)
    (rest : List Path) :
    first ∈ Ruby.mergePairs (first :: rest) := by
  by_cases pair : ∃ third more, rest = [] :: third :: more
  · obtain ⟨third, more, rfl⟩ := pair
    exact List.mem_cons_self
  · have unpaired : Ruby.Unpaired rest :=
      fun third more same => pair ⟨third, more, same⟩
    rw [Ruby.mergePairs_cons unpaired]
    exact List.mem_cons_self

/-- Merging pairs leaves components exactly if the fields are plain. -/
theorem mergePairs_components_iff
    {fields : List Path}
    (nonempty : fields ≠ [])
    (first : ∀ field ∈ fields.head?, field ≠ []) :
    (∀ field ∈ Ruby.mergePairs fields, IsComponent field) ↔
      PlainFields fields := by
  fun_induction Ruby.mergePairs fields with
  | case1 field third rest inductionHypothesis =>
      have notEmpty : field ≠ [] := first field rfl
      rw [plainFields_cons_iff notEmpty, plainFields_nil_cons_iff,
        List.forall_mem_cons]
      by_cases empty : third = []
      · refine iff_of_false ?_ fun plain => plain.2.1 empty
        intro components
        have kept := mem_mergePairs_first third rest
        exact (components.2 third kept).1 empty
      · have others := inductionHypothesis (List.cons_ne_nil _ _)
          (by simpa using empty)
        rw [others]
        exact ⟨fun plain => ⟨plain.1.2, empty, plain.2⟩,
          fun plain => ⟨⟨notEmpty, plain.1⟩, plain.2.2⟩⟩
  | case2 field rest unpaired inductionHypothesis =>
      have notEmpty : field ≠ [] := first field rfl
      cases rest with
      | nil =>
          simp [Ruby.mergePairs, PlainFields, notEmpty]
      | cons next more =>
          rw [plainFields_cons_iff notEmpty, List.forall_mem_cons]
          by_cases empty : next = []
          · cases more with
            | nil =>
                simp [Ruby.mergePairs, PlainFields, empty]
            | cons third more =>
                rw [empty] at unpaired
                exact (unpaired third more rfl).elim
          · have others := inductionHypothesis (List.cons_ne_nil _ _)
              (by simpa using empty)
            rw [others]
            exact and_congr_left fun _ => and_iff_right notEmpty
  | case3 =>
      exact absurd rfl nonempty

/-- Merging the pairs of plain fields removes the empty ones. -/
theorem mergePairs_eq_filter
    {fields : List Path}
    (first : ∀ field ∈ fields.head?, field ≠ [])
    (plain : PlainFields fields) :
    Ruby.mergePairs fields = fields.filter (· ≠ []) := by
  fun_induction Ruby.mergePairs fields with
  | case1 field third rest inductionHypothesis =>
      have notEmpty : field ≠ [] := first field rfl
      rw [plainFields_cons_iff notEmpty, plainFields_nil_cons_iff] at plain
      obtain ⟨_, notEmptyThird, plainRest⟩ := plain
      rw [inductionHypothesis (by simpa using notEmptyThird) plainRest]
      simp [notEmpty]
  | case2 field rest unpaired inductionHypothesis =>
      have notEmpty : field ≠ [] := first field rfl
      cases rest with
      | nil =>
          simp [Ruby.mergePairs, notEmpty]
      | cons next more =>
          have notEmptyNext : next ≠ [] := by
            rintro rfl
            cases more with
            | nil =>
                exact plain.2.1 rfl
            | cons third more =>
                exact unpaired third more rfl
          rw [plainFields_cons_iff notEmpty] at plain
          rw [inductionHypothesis (by simpa using notEmptyNext) plain.2]
          simp [notEmpty]
  | case3 =>
      rfl

/-! ## What the substitution computes -/

/-- A base is `/` or the path of names. -/
theorem exists_of_normalised
    {base : Path}
    (normalised : Normalised base) :
    ∃ components,
      (∀ component ∈ components, IsName component ∧ NotDots component) ∧
        base = directoryPath components := by
  obtain ⟨components, names, notDots, same⟩ := normalised
  exact ⟨components,
    fun component member => ⟨names component member, notDots component member⟩,
    same⟩

/-- The fields of a path below a base. -/
theorem splitOn_below
    {components : List Path}
    (names : Names components)
    (path : Path) :
    (directoryPath components ++ [slash] ++ path).splitOn slash =
      (if components = [] then [[]] else []) ++ [] :: components ++
        path.splitOn slash := by
  rw [List.append_assoc, List.singleton_append,
    List.splitOn_append_cons_self]
  by_cases root : components = []
  · rw [directoryPath, if_pos root, if_pos root, root]
    rfl
  · rw [directoryPath, if_neg root, if_neg root, splitOn_pathOf names]
    rfl

/-- Fields that lead neither up nor nowhere are all entered. -/
theorem walk_names
    {fields : List Path}
    (notDots : ∀ field ∈ fields, NotDots field)
    (names : List Path) :
    (Hierarchy.stack Path).walk names (fields.map moveOf) =
      names ++ fields.filter (· ≠ []) := by
  induction fields generalizing names with
  | nil =>
      exact (List.append_nil names).symm
  | cons field rest inductionHypothesis =>
      obtain ⟨notDotsField, notDotsRest⟩ := List.forall_mem_cons.mp notDots
      rw [List.map_cons, Hierarchy.walk_cons,
        inductionHypothesis notDotsRest]
      by_cases empty : field = []
      · rw [empty, List.filter_cons_of_neg (by decide)]
        rfl
      · rw [moveOf_component empty notDotsField, List.filter_cons,
          if_pos (decide_eq_true empty), List.append_cons]
        rfl

/-- The resolver leaves the components and the fields that are not empty. -/
theorem normalizedPath_below
    {components : List Path}
    (isComponent :
      ∀ component ∈ components, IsName component ∧ NotDots component)
    {path : Path}
    (notDots : ∀ field ∈ path.splitOn slash, NotDots field) :
    normalizedPath (directoryPath components ++ [slash] ++ path) =
      directoryPath
        (components ++ (path.splitOn slash).filter (· ≠ [])) := by
  have base : resolve (Hierarchy.stack Path) (directoryPath components) =
      components := by
    rw [resolve_directoryPath _ isComponent, Hierarchy.stack_descend]
  rw [resolve] at base
  rw [normalizedPath_eq, resolve, List.append_assoc, List.singleton_append,
    moves_append, Hierarchy.walk_append, base, moves, walk_names notDots]

/-- The path does not start between two slashes. -/
theorem unpaired_of_relative
    {path : Path}
    (relative : ¬ [slash].isPrefixOf path = true) :
    Ruby.Unpaired (path.splitOn slash) := by
  refine Ruby.unpaired_splitOn fun starts => relative ?_
  obtain ⟨rest, rfl⟩ := List.head?_eq_some_iff.mp starts
  exact List.isPrefixOf_iff_prefix.mpr (List.prefix_append [slash] rest)

/-- The substitution leaves the components and the merged fields. -/
theorem expandPath_below
    {components : List Path}
    (names : Names components)
    {path : Path}
    (relative : ¬ [slash].isPrefixOf path = true) :
    expandPath path (directoryPath components) =
      pathOf (components ++ Ruby.mergePairs (path.splitOn slash)) := by
  have merged :
      Ruby.mergePairs
          ((if components = [] then [[]] else []) ++ [] :: components ++
            path.splitOn slash) =
        [] :: (components ++ Ruby.mergePairs (path.splitOn slash)) := by
    by_cases root : components = []
    · obtain ⟨first, rest, fields⟩ :=
        List.exists_cons_of_ne_nil (List.splitOn_ne_nil slash path)
      rw [if_pos root, root, fields]
      rfl
    · obtain ⟨together, unpaired⟩ :=
        Ruby.mergePairs_append (fun name member => (names name member).1)
          (unpaired_of_relative relative)
      rw [if_neg root, List.nil_append, List.cons_append,
        Ruby.mergePairs_cons unpaired, together]
  rw [expandPath, if_neg relative, ← Ruby.join_splitOn slash
    (Ruby.gsubString _ _ _), Ruby.splitOn_gsub_pair, splitOn_below names,
    merged, Ruby.join_cons]
  rfl

/-! ## The two resolvers -/

/-- The path is resolved to a normalised one, as `require_relative` does. -/
def Canonical (base path : Path) : Prop :=
  Normalised (expandPath path base) ∧
    expandPath path base = location base path ∧
      expandPath (expandPath path base) base = expandPath path base

/-- Two dots are resolved by one of the two. -/
theorem expand_path_keeps_parent_step :
    Normalised (word ['/', 'l', 'i', 'b']) ∧
      expandPath (word ['.', '.', '/', 'a']) (word ['/', 'l', 'i', 'b']) =
        word ['/', 'l', 'i', 'b', '/', '.', '.', '/', 'a'] ∧
      location (word ['/', 'l', 'i', 'b']) (word ['.', '.', '/', 'a']) =
        word ['/', 'a'] ∧
      ¬ Canonical (word ['/', 'l', 'i', 'b']) (word ['.', '.', '/', 'a']) := by
  refine ⟨⟨[word ['l', 'i', 'b']], ?_, ?_, rfl⟩, ?_, ?_, ?_⟩
  · decide
  · decide
  · decide
  · decide
  · intro canonical
    exact absurd canonical.2.1 (by decide)

/-- The first field of a relative path that is not empty. -/
theorem first_of_relative
    {path : Path}
    (relative : ¬ [slash].isPrefixOf path = true)
    (nonempty : path ≠ []) :
    ∀ field ∈ (path.splitOn slash).head?, field ≠ [] := by
  rintro field isFirst rfl
  obtain ⟨rest, fields⟩ := List.head?_eq_some_iff.mp isFirst
  cases rest with
  | nil =>
      have joined := Ruby.join_splitOn slash path
      rw [fields] at joined
      exact nonempty joined.symm
  | cons third rest =>
      exact unpaired_of_relative relative third rest fields

/-- The first field is the first one after the pairs are merged. -/
theorem exists_first_merged (path : Path) :
    ∃ first,
      first ∈ Ruby.mergePairs (path.splitOn slash) ∧
        (path.splitOn slash).head? = some first := by
  obtain ⟨first, rest, fields⟩ :=
    List.exists_cons_of_ne_nil (List.splitOn_ne_nil slash path)
  rw [fields]
  exact ⟨first, mem_mergePairs_first first rest, rfl⟩

/-- So there is something below every base. -/
theorem merged_ne_nil
    (components : List Path)
    (path : Path) :
    components ++ Ruby.mergePairs (path.splitOn slash) ≠ [] := by
  obtain ⟨first, kept, _⟩ := exists_first_merged path
  exact List.append_ne_nil_of_right_ne_nil _ (List.ne_nil_of_mem kept)

/-- When a relative path is resolved to a normalised one. -/
theorem normalised_expandPath_iff
    {components : List Path}
    (isComponent :
      ∀ component ∈ components, IsName component ∧ NotDots component)
    {path : Path}
    (relative : ¬ [slash].isPrefixOf path = true) :
    Normalised (expandPath path (directoryPath components)) ↔
      if path = [] then components = [] else PlainPath path := by
  have names := names_of_components isComponent
  have clean :
      ∀ field ∈ components ++ Ruby.mergePairs (path.splitOn slash),
        slash ∉ field := by
    rw [← Ruby.splitOn_gsub_pair, List.forall_mem_append]
    exact ⟨fun name member => (names name member).2,
      fun _ => Ruby.not_mem_of_mem_splitOn⟩
  obtain ⟨first, kept, isFirst⟩ := exists_first_merged path
  rw [expandPath_below names relative,
    normalised_pathOf_iff clean (merged_ne_nil components path)]
  by_cases empty : path = []
  · subst empty
    rw [if_pos rfl]
    constructor
    · rintro (single | allComponents)
      · exact List.append_left_eq_self.mp single
      · exact absurd rfl (allComponents []
          (List.mem_append_right _ List.mem_cons_self)).1
    · rintro rfl
      exact .inl rfl
  · have firstNotEmpty := first_of_relative relative empty
    have notRoot :
        components ++ Ruby.mergePairs (path.splitOn slash) ≠ [[]] := by
      intro single
      have member := List.mem_append_right components kept
      rw [single, List.mem_singleton] at member
      exact firstNotEmpty first isFirst member
    rw [if_neg empty, List.forall_mem_append,
      mergePairs_components_iff (List.splitOn_ne_nil slash path)
        firstNotEmpty, or_iff_right notRoot]
    exact and_iff_right fun component member =>
      ⟨(names component member).1, (isComponent component member).2⟩

/-- An absolute path is the path of the fields after its first slash. -/
theorem exists_of_absolute
    {path : Path}
    (absolute : [slash].isPrefixOf path = true) :
    ∃ fields,
      fields ≠ [] ∧ (∀ field ∈ fields, slash ∉ field) ∧
        path.splitOn slash = [] :: fields ∧ path = pathOf fields := by
  obtain ⟨rest, rfl⟩ := List.isPrefixOf_iff_prefix.mp absolute
  have split :
      ([slash] ++ rest).splitOn slash = [] :: rest.splitOn slash := by
    rw [List.singleton_append, List.splitOn_cons_eq_if_modifyHead]
    rfl
  refine ⟨rest.splitOn slash, List.splitOn_ne_nil slash rest,
    fun _ => Ruby.not_mem_of_mem_splitOn, split, ?_⟩
  have joined := Ruby.join_splitOn slash ([slash] ++ rest)
  rw [split, Ruby.join_cons] at joined
  exact joined.symm

/-- What is resolved to a normalised path is spelled well. -/
theorem wellSpelled_iff
    {base : Path}
    (normalised : Normalised base)
    (path : Path) :
    Normalised (expandPath path base) ↔ WellSpelled base path := by
  by_cases absolute : [slash].isPrefixOf path = true
  · obtain ⟨fields, nonempty, clean, split, whole⟩ :=
      exists_of_absolute absolute
    have root : path = [slash] ↔ fields = [[]] := by
      constructor
      · rintro rfl
        exact (List.cons.inj split).2.symm
      · rintro rfl
        exact whole
    rw [expandPath, if_pos absolute, WellSpelled, if_pos absolute, split,
      root, List.tail_cons, whole]
    exact normalised_pathOf_iff clean nonempty
  · obtain ⟨components, isComponent, rfl⟩ := exists_of_normalised normalised
    have root : directoryPath components = [slash] ↔ components = [] := by
      constructor
      · intro isRoot
        by_contra nonempty
        rw [directoryPath, if_neg nonempty] at isRoot
        exact pathOf_ne_root (names_of_components isComponent) isRoot
      · rintro rfl
        rfl
    rw [normalised_expandPath_iff isComponent absolute, WellSpelled,
      if_neg absolute, root]

/-- An absolute path of components is its own location. -/
theorem expandPath_eq_location_of_absolute
    {path : Path}
    (absolute : [slash].isPrefixOf path = true)
    (components : ∀ field ∈ (path.splitOn slash).tail, IsComponent field)
    (base : Path) :
    expandPath path base = location base path := by
  obtain ⟨fields, nonempty, _, split, whole⟩ := exists_of_absolute absolute
  rw [split, List.tail_cons] at components
  have notDots : ∀ field ∈ path.splitOn slash, NotDots field := by
    rw [split, List.forall_mem_cons]
    exact ⟨by decide, fun field member => (components field member).2⟩
  have kept : (path.splitOn slash).filter (· ≠ []) = fields := by
    rw [split, List.filter_cons_of_neg (by decide), List.filter_eq_self]
    exact fun field member => decide_eq_true (components field member).1
  have resolved := normalizedPath_below (List.forall_mem_nil _) notDots
  rw [List.nil_append, kept, directoryPath, directoryPath, if_neg nonempty,
    if_pos rfl, ← whole] at resolved
  rw [expandPath, if_pos absolute, location, if_pos absolute, resolved]

/-- A relative path that is plain is resolved to its location. -/
theorem expandPath_eq_location_of_relative
    {components : List Path}
    (isComponent :
      ∀ component ∈ components, IsName component ∧ NotDots component)
    {path : Path}
    (relative : ¬ [slash].isPrefixOf path = true)
    (notEmpty : path ≠ [])
    (plain : PlainPath path) :
    expandPath path (directoryPath components) =
      location (directoryPath components) path := by
  have names := names_of_components isComponent
  have firstNotEmpty := first_of_relative relative notEmpty
  have merged := mergePairs_eq_filter firstNotEmpty plain
  have nonempty := merged_ne_nil components path
  rw [merged] at nonempty
  rw [expandPath_below names relative, merged, location, if_neg relative,
    normalizedPath_below isComponent plain.1, directoryPath,
    if_neg nonempty]

/-- A path that is spelled well is resolved to its location. -/
theorem expandPath_eq_location
    {base path : Path}
    (normalised : Normalised base)
    (wellSpelled : WellSpelled base path) :
    expandPath path base = location base path := by
  rw [WellSpelled] at wellSpelled
  by_cases absolute : [slash].isPrefixOf path = true
  · rw [if_pos absolute] at wellSpelled
    rcases wellSpelled with rfl | components
    · rfl
    · exact expandPath_eq_location_of_absolute absolute components base
  · rw [if_neg absolute] at wellSpelled
    by_cases empty : path = []
    · subst empty
      rw [if_pos rfl] at wellSpelled
      rw [wellSpelled]
      rfl
    · rw [if_neg empty] at wellSpelled
      obtain ⟨components, isComponent, rfl⟩ :=
        exists_of_normalised normalised
      exact expandPath_eq_location_of_relative isComponent absolute empty
        wellSpelled

/-- The path of some fields is absolute. -/
theorem absolute_pathOf
    {fields : List Path}
    (nonempty : fields ≠ []) :
    [slash].isPrefixOf (pathOf fields) = true := by
  obtain ⟨first, rest, rfl⟩ := List.exists_cons_of_ne_nil nonempty
  rw [pathOf_cons]
  exact List.isPrefixOf_iff_prefix.mpr (List.prefix_append [slash] _)

/-- What was resolved stays. -/
theorem expandPath_expandPath
    {base : Path}
    (normalised : Normalised base)
    (path : Path) :
    expandPath (expandPath path base) base = expandPath path base := by
  have absolute : [slash].isPrefixOf (expandPath path base) = true := by
    by_cases absolute : [slash].isPrefixOf path = true
    · rw [expandPath, if_pos absolute]
      exact absolute
    · obtain ⟨components, isComponent, rfl⟩ :=
        exists_of_normalised normalised
      rw [expandPath_below (names_of_components isComponent) absolute]
      exact absolute_pathOf (merged_ne_nil components path)
  rw [expandPath, if_pos absolute]

/-- Exactly the paths that are spelled well are resolved canonically. -/
theorem expand_path_canonical_iff
    {base : Path}
    (normalised : Normalised base) :
    (∀ path, Canonical base path ↔ WellSpelled base path) ∧
      ∀ path other,
        WellSpelled base path →
          WellSpelled base other →
            (expandPath path base = expandPath other base ↔
              location base path = location base other) := by
  refine ⟨fun path => ⟨fun canonical => ?_, fun wellSpelled => ?_⟩, ?_⟩
  · exact (wellSpelled_iff normalised path).mp canonical.1
  · exact ⟨(wellSpelled_iff normalised path).mpr wellSpelled,
      expandPath_eq_location normalised wellSpelled,
      expandPath_expandPath normalised path⟩
  · intro path other wellSpelled wellSpelledOther
    rw [expandPath_eq_location normalised wellSpelled,
      expandPath_eq_location normalised wellSpelledOther]

/-- Doubled slashes are resolved, and two spellings name one file. -/
theorem expand_path_canonical_iff_lib :
    (Canonical (word ['/', 'l', 'i', 'b']) (word ['a', '/', '/', 'b']) ↔
        WellSpelled (word ['/', 'l', 'i', 'b'])
          (word ['a', '/', '/', 'b'])) ∧
      (expandPath (word ['a', '/', '/', 'b']) (word ['/', 'l', 'i', 'b']) =
          expandPath (word ['a', '/', 'b']) (word ['/', 'l', 'i', 'b']) ↔
        location (word ['/', 'l', 'i', 'b']) (word ['a', '/', '/', 'b']) =
          location (word ['/', 'l', 'i', 'b']) (word ['a', '/', 'b'])) := by
  have normalised : Normalised (word ['/', 'l', 'i', 'b']) :=
    ⟨[word ['l', 'i', 'b']], by decide, by decide, rfl⟩
  have exact := expand_path_canonical_iff normalised
  refine ⟨exact.1 (word ['a', '/', '/', 'b']),
    exact.2 (word ['a', '/', '/', 'b']) (word ['a', '/', 'b']) ?_ ?_⟩
  · refine ⟨?_, ?_, ?_⟩
    · decide
    · decide
    · decide
  · refine ⟨?_, ?_, ?_⟩
    · decide
    · decide
    · decide

end RubyOnBareMetal.Shell
