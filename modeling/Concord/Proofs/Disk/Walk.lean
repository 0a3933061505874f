import Concord.Disk.Basic
import Concord.Proofs.Path.Place

/-!
# Walks through a tree of files

A walk moves with each segment of a path that is not void. If it comes to an end, it ends at the
place that the path names (`Node.eq_foldl_of_walk`). A place that exists can be reached without
detours, so that a path and the path of its place have the same entries (`Disk.SameEntries`) if the
path leads to a directory, or if it does not go up, whether its directories exist or not.
-/

namespace Concord

/-! ## Segments that move -/

/-- How a component that moves is written. -/
def Component.move? : Component → Option String
  | .root => none
  | .current => none
  | .parent => some ".."
  | .normal name => some name

namespace Path

variable {p q : Path} {name : String}

/-- The segments of a path that move. -/
def moves (p : Path) : List String := p.segments.filter fun segment => !isVoid segment

/-- A segment moves a walk unless it is void. -/
theorem bind_move?_component? (segment : String) :
    (component? segment).bind Component.move? =
      if isVoid segment then none else some segment := by
  unfold component?
  by_cases hvoid : isVoid segment = true
  · rw [if_pos hvoid, if_pos hvoid]
    rfl
  · rw [if_neg hvoid, if_neg hvoid]
    by_cases hup : segment = ".."
    · rw [if_pos hup, hup]
      rfl
    · rw [if_neg hup]
      rfl

/-- The segments that move a walk are the moves of the components. -/
theorem filter_isVoid_eq_filterMap (segments : List String) :
    segments.filter (fun segment => !isVoid segment) =
      (segments.filterMap component?).filterMap Component.move? := by
  induction segments with
  | nil => rfl
  | cons segment rest ih =>
    have hsegment := bind_move?_component? segment
    cases hvoid : isVoid segment with
    | true =>
      have hnone : component? segment = none := by simp [component?, hvoid]
      rw [List.filter_cons_of_neg (by simp [hvoid]), List.filterMap_cons_none hnone, ih]
    | false =>
      obtain ⟨c, hc, -⟩ := component?_of_not_isVoid (Bool.not_eq_true _ ▸ hvoid)
      rw [hc, hvoid] at hsegment
      have hmove : c.move? = some segment := by simpa using hsegment
      rw [List.filter_cons_of_pos (by simp [hvoid]), List.filterMap_cons_some hc,
        List.filterMap_cons_some hmove, ih]

/-- What moves are the components apart from the top and the dot. -/
theorem moves_eq (p : Path) : p.moves = p.components.filterMap Component.move? := by
  have hfirst : [p.first].filter (fun segment => !isVoid segment) =
      p.firstComponent?.toList.filterMap Component.move? := by
    unfold firstComponent?
    split
    · next habsolute =>
      have hempty : p.first = "" := by
        simp only [isAbsolute, Bool.and_eq_true, decide_eq_true_eq] at habsolute
        exact habsolute.1
      rw [hempty]
      rfl
    · split
      · next hdot =>
        rw [hdot]
        rfl
      · rw [filter_isVoid_eq_filterMap]
        cases hc : component? p.first <;> simp [hc]
  have hsplit : p.segments = [p.first] ++ p.rest := rfl
  rw [moves, hsplit, List.filter_append, hfirst, filter_isVoid_eq_filterMap, components,
    List.filterMap_append]

/-- The way to a directory above is the beginning of the way to what is below. -/
theorem moves_prefix_of_mem_ancestors (h : q ∈ p.ancestors) : q.moves <+: p.moves := by
  rw [moves_eq, moves_eq]
  exact (components_prefix_of_mem_ancestors h).filterMap _

theorem moves_eq_names (h : .parent ∉ p.components) : p.moves = p.names := by
  rw [moves_eq, names]
  refine List.filterMap_congr fun c hc => ?_
  cases c with
  | parent => exact absurd hc h
  | root => rfl
  | current => rfl
  | normal name => rfl

/-- A path to a place moves down to it and nowhere else. -/
theorem moves_ofPlace {place : List String} (h : ∀ name ∈ place, IsName name) :
    (ofPlace place).moves = place.reverse := by
  rw [moves_eq_names (parent_not_mem_ofPlace h), names_ofPlace h]

/-- The segments that move lead to the place that the path names. -/
theorem foldl_enter_moves (here : List String) (p : Path) :
    (p.moves.filterMap component?).foldl Component.enter (p.origin here) = p.place here := by
  have hmoves : p.moves.filterMap component? = p.segments.filterMap component? := by
    rw [moves, List.filterMap_filter]
    refine List.filterMap_congr fun segment _ => ?_
    cases hvoid : isVoid segment <;> simp [component?, hvoid]
  rw [hmoves, place, components, List.foldl_append, segments, List.filterMap_cons]
  unfold origin firstComponent?
  by_cases habsolute : p.isAbsolute = true
  · have hfirst : component? p.first = none := by
      simp only [isAbsolute, Bool.and_eq_true, decide_eq_true_eq] at habsolute
      rw [habsolute.1]
      rfl
    rw [hfirst, if_pos habsolute, if_pos habsolute]
    rfl
  · rw [if_neg habsolute, if_neg habsolute]
    by_cases hdot : p.first = "."
    · rw [if_pos hdot, hdot]
      rfl
    · rw [if_neg hdot]
      cases component? p.first <;> rfl

theorem fileName?_entry (q : Path) (h : IsName name) : (q.entry name).fileName? = some name :=
  fileName?_join q (isAbsolute_name name) (fileName?_eq_some_iff.2 ⟨[], components_name h⟩)

/-- The way to an entry is the way to its directory, followed by its name. -/
theorem exists_segments_entry (q : Path) (name : String) :
    ∃ before, (q.entry name).segments = before ++ [name] ∧
      before.filter (fun segment => !isVoid segment) = q.moves := by
  unfold entry
  cases hempty : q.isEmpty with
  | true =>
    refine ⟨[], by rw [join_of_isEmpty hempty]; rfl, ?_⟩
    simp only [isEmpty, Bool.and_eq_true, decide_eq_true_eq, List.isEmpty_iff] at hempty
    rw [moves, segments, hempty.1, hempty.2]
    rfl
  | false =>
    obtain ⟨kept, voids, hrest, hvoids, hjoin⟩ := exists_join_eq hempty (isAbsolute_name name)
    refine ⟨q.first :: kept, by rw [hjoin]; rfl, ?_⟩
    have hnone : voids.filter (fun segment => !isVoid segment) = [] :=
      List.filter_eq_nil_iff.2 fun segment hsegment => by simp [hvoids segment hsegment]
    have hsplit : q.segments = (q.first :: kept) ++ voids := by rw [segments, hrest]; rfl
    rw [moves, hsplit, List.filter_append, hnone, List.append_nil]

end Path

/-! ## Walking -/

namespace Node

variable {tree : Node} {place last : List String} {segments names : List String} {segment : String}

theorem at?_append (n : Node) (names more : List String) :
    n.at? (names ++ more) = (n.at? names).bind (·.at? more) := by
  induction names generalizing n with
  | nil => rfl
  | cons name rest ih =>
    rw [List.cons_append, at?, at?]
    cases n.entry? name with
    | none => rfl
    | some below => exact ih below

/-- A walk that goes on goes on from a directory, to the place that the segment leads to. -/
theorem walk_cons_eq_ok (h : tree.walk place (segment :: segments) = .ok last) :
    (∃ entries, tree.at? place.reverse = some (.directory entries)) ∧
      tree.walk (((Path.component? segment).map (·.enter place)).getD place) segments =
        .ok last := by
  rw [walk] at h
  split at h
  · cases h
  · cases h
  · next entries hnode =>
    refine ⟨⟨entries, hnode⟩, ?_⟩
    unfold Path.component? Path.isVoid
    by_cases hvoid : (segment = "" || segment = ".") = true
    · rw [if_pos hvoid] at h ⊢
      exact h
    · rw [if_neg hvoid] at h ⊢
      by_cases hup : segment = ".."
      · rw [if_pos hup] at h ⊢
        exact h
      · rw [if_neg hup] at h ⊢
        split at h
        · exact h
        · cases h

/-- A walk can be broken off anywhere and taken up again from the place that it has come to. -/
theorem walk_append (tree : Node) (place first rest : List String) :
    tree.walk place (first ++ rest) =
      (tree.walk place first).bind fun middle => tree.walk middle rest := by
  induction first generalizing place with
  | nil => rfl
  | cons segment first ih =>
    rw [List.cons_append, walk, walk]
    cases tree.at? place.reverse with
    | none => rfl
    | some node =>
      cases node with
      | file text => rfl
      | directory entries =>
        dsimp only
        split
        · exact ih place
        · split
          · exact ih place.tail
          · cases entries.lookup segment with
            | none => rfl
            | some below => exact ih (segment :: place)

/-- A void segment leaves a walk where it is, unless it is the last one. -/
theorem walk_cons_void (tree : Node) (place : List String) {segment : String}
    (hsegment : Path.isVoid segment = true) {rest : List String} (hrest : rest ≠ []) :
    tree.walk place (segment :: rest) = tree.walk place rest := by
  obtain ⟨next, others, rfl⟩ := List.exists_cons_of_ne_nil hrest
  have hvoid : (segment = "" || segment = ".") = true := hsegment
  rw [walk]
  -- Only in a directory does a further segment lead anywhere.
  cases hnode : tree.at? place.reverse with
  | none => rw [walk, hnode]
  | some node =>
    cases node with
    | file text => rw [walk, hnode]
    | directory entries => simp only [hvoid, if_true]

/-- A walk that comes to an end comes to the place that the segments lead to. -/
theorem eq_foldl_of_walk (h : tree.walk place segments = .ok last) :
    last = (segments.filterMap Path.component?).foldl Component.enter place := by
  induction segments generalizing place with
  | nil => exact (Except.ok.inj h).symm
  | cons segment rest ih =>
    have hrest := ih (walk_cons_eq_ok h).2
    rw [hrest]
    cases hc : Path.component? segment with
    | none => rw [List.filterMap_cons_none hc]; rfl
    | some c => rw [List.filterMap_cons_some hc]; rfl

/-- Void segments do not matter to a walk that goes on after them. -/
theorem walk_filter (tree : Node) (place segments : List String) {rest : List String}
    (hrest : rest ≠ []) :
    tree.walk place (segments ++ rest) =
      tree.walk place (segments.filter (fun segment => !Path.isVoid segment) ++ rest) := by
  induction segments generalizing place with
  | nil => rfl
  | cons segment segments ih =>
    cases hvoid : Path.isVoid segment with
    | true =>
      have hmore : segments ++ rest ≠ [] := List.append_ne_nil_of_right_ne_nil segments hrest
      rw [List.cons_append, walk_cons_void tree place hvoid hmore,
        List.filter_cons_of_neg (by simp [hvoid]), ih]
    | false =>
      rw [List.filter_cons_of_pos (by simp [hvoid]), List.cons_append, List.cons_append, walk, walk]
      simp only [ih]

/-- A walk that ends in a directory may end in a dot as well. -/
theorem walk_dot {entries : List (String × Node)}
    (hlast : tree.at? last.reverse = some (.directory entries)) (segments : List String) :
    tree.walk place segments = .ok last ↔ tree.walk place (segments ++ ["."]) = .ok last := by
  rw [walk_append]
  constructor
  · intro h
    rw [h, Except.bind, walk, hlast]
    rfl
  · intro h
    cases hmiddle : tree.walk place segments with
    | error failure =>
      rw [hmiddle] at h
      cases h
    | ok middle =>
      rw [hmiddle] at h
      rw [eq_foldl_of_walk h]
      rfl

/-- Void segments do not matter to a walk that ends with a directory. -/
theorem walk_filter_eq_ok_iff {entries : List (String × Node)}
    (hlast : tree.at? last.reverse = some (.directory entries)) :
    tree.walk place (segments.filter fun segment => !Path.isVoid segment) = .ok last ↔
      tree.walk place segments = .ok last := by
  have hdot : ["."] ≠ [] := List.cons_ne_nil _ _
  rw [walk_dot hlast, walk_dot hlast segments, walk_filter tree place segments hdot]

/-- Whatever exists is reached by its names. -/
theorem walk_names {node : Node} (hnames : ∀ name ∈ names, Path.IsName name)
    (hnode : tree.at? (place.reverse ++ names) = some node) :
    tree.walk place names = .ok (names.reverse ++ place) := by
  induction names generalizing place with
  | nil => rfl
  | cons name rest ih =>
    obtain ⟨hname, hrest⟩ := List.forall_mem_cons.1 hnames
    have hvoid : (name = "" || name = ".") = false := Path.isVoid_of_isName hname
    have hup : name ≠ ".." := by
      rintro rfl
      cases hname
    have hfurther : tree.at? ((name :: place).reverse ++ rest) = some node := by
      rw [List.reverse_cons, List.append_assoc]
      exact hnode
    rw [at?_append, Option.bind_eq_some_iff] at hnode
    obtain ⟨here, hhere, hbelow⟩ := hnode
    rw [at?, Option.bind_eq_some_iff] at hbelow
    obtain ⟨below, hentry, -⟩ := hbelow
    cases here with
    | file text => cases hentry
    | directory entries =>
      have hlookup : entries.lookup name = some below := hentry
      rw [walk, hhere]
      simp only [hvoid, Bool.false_eq_true, if_false, hup, hlookup]
      rw [ih hrest hfurther, List.reverse_cons, List.append_assoc]
      rfl

end Node

/-! ## Paths on a disk -/

namespace Disk

variable {d : Disk} {p q r : Path} {name : String}

/-- The place of someone who looks at a disk. -/
def here (d : Disk) : List String := d.cwd.reverse

/-- Where a path leads is found by a walk over all its segments. -/
theorem locate_eq (h : p.isEmpty = false) :
    d.locate p = (d.tree.walk (p.origin d.here) p.segments).map List.reverse := by
  unfold locate Path.origin
  by_cases habsolute : p.isAbsolute = true
  · have hparts : p.first = "" ∧ p.rest ≠ [] := by
      simpa [Path.isAbsolute] using habsolute
    have htop : Path.isVoid p.first = true := by rw [hparts.1]; rfl
    have hwalk : d.tree.walk [] p.segments = d.tree.walk [] p.rest :=
      Node.walk_cons_void d.tree [] htop hparts.2
    simp [h, habsolute, hwalk]
  · simp [h, habsolute, here]

/-- Where the entries of a directory lead depends on what moves in its path. -/
theorem locate_entry (d : Disk) (q : Path) (hname : Path.IsName name) :
    d.locate (q.entry name) =
      (d.tree.walk (q.origin d.here) (q.moves ++ [name])).map List.reverse := by
  obtain ⟨before, hsegments, hmoves⟩ := Path.exists_segments_entry q name
  have hopen : (q.entry name).isEmpty = false := by
    have hvoid := Path.isVoid_of_isName hname
    cases hempty : (q.entry name).isEmpty with
    | false => rfl
    | true =>
      simp only [Path.isEmpty, Bool.and_eq_true, decide_eq_true_eq, List.isEmpty_iff] at hempty
      rw [Path.segments, hempty.1, hempty.2] at hsegments
      obtain ⟨-, rfl⟩ : before = [] ∧ "" = name := by
        cases before with
        | nil => exact ⟨rfl, (List.cons.inj hsegments).1⟩
        | cons first others => simp at hsegments
      cases hvoid
  have horigin : (q.entry name).origin d.here = q.origin d.here := by
    rw [Path.origin, Path.origin, Path.entry, Path.isAbsolute_join_eq q (Path.isAbsolute_name name)]
  rw [locate_eq hopen, horigin, hsegments,
    Node.walk_filter d.tree _ before (List.cons_ne_nil name []), hmoves]

/-- Whether the entries of two paths lead to the same places, or nowhere for the same reason. -/
def SameEntries (d : Disk) (q r : Path) : Prop :=
  ∀ name, Path.IsName name → d.locate (q.entry name) = d.locate (r.entry name)

/-- Whether the segments of a path lead to a directory, at the place that the path names. -/
def LeadsIn (d : Disk) (q : Path) : Prop :=
  d.tree.walk (q.origin d.here) q.moves = .ok (q.place d.here) ∧
    ∃ entries, d.tree.at? (q.place d.here).reverse = some (.directory entries)

theorem leadsIn_of_isDirectory (h : d.isDirectory p = true) : d.LeadsIn p := by
  have hopen : p.isEmpty = false := by
    by_contra hempty
    rw [Bool.not_eq_false] at hempty
    simp [isDirectory, node?, locate, hempty] at h
  unfold isDirectory node? at h
  rw [locate_eq hopen] at h
  cases hwalk : d.tree.walk (p.origin d.here) p.segments with
  | error failure => simp [hwalk, Except.map] at h
  | ok last =>
    obtain ⟨entries, hlast⟩ : ∃ entries, d.tree.at? last.reverse = some (.directory entries) := by
      simp only [hwalk, Except.map] at h
      split at h
      · next entries hlast => exact ⟨entries, hlast⟩
      · cases h
    have hmoves := (Node.walk_filter_eq_ok_iff hlast).2 hwalk
    obtain rfl : last = p.place d.here := by
      rw [Node.eq_foldl_of_walk hmoves, ← Path.foldl_enter_moves]
      rfl
    exact ⟨hmoves, entries, hlast⟩

/-- All that lies on the way to a directory is a directory. -/
theorem LeadsIn.of_mem_ancestors (h : d.LeadsIn p) (hq : q ∈ p.ancestors) : d.LeadsIn q := by
  obtain ⟨more, hmore⟩ := Path.moves_prefix_of_mem_ancestors hq
  obtain ⟨hwalk, entries, hnode⟩ := h
  have horigin : q.origin d.here = p.origin d.here := by
    rw [Path.origin, Path.origin, Path.isAbsolute_of_mem_ancestors hq]
  rw [← hmore, Node.walk_append, ← horigin] at hwalk
  cases hmiddle : d.tree.walk (q.origin d.here) q.moves with
  | error failure =>
    rw [hmiddle] at hwalk
    cases hwalk
  | ok middle =>
    rw [hmiddle] at hwalk
    obtain rfl : middle = q.place d.here := by
      rw [Node.eq_foldl_of_walk hmiddle, Path.foldl_enter_moves]
    refine ⟨hmiddle, ?_⟩
    cases more with
    | nil =>
      have hsame : q.place d.here = p.place d.here := Except.ok.inj hwalk
      exact ⟨entries, hsame ▸ hnode⟩
    | cons segment rest => exact (Node.walk_cons_eq_ok hwalk).1

/-- A path that leads in, from the root of the disk, leads to its place. -/
theorem LeadsIn.locate (h : d.LeadsIn q) (habsolute : q.isAbsolute = true) :
    d.locate q = .ok (q.place []).reverse := by
  obtain ⟨hwalk, entries, hnode⟩ := h
  have hsegments := (Node.walk_filter_eq_ok_iff hnode).1 hwalk
  rw [locate_eq (Path.isEmpty_of_isAbsolute habsolute), hsegments,
    Path.place_of_isAbsolute d.here habsolute]
  rfl

/-- A directory that an absolute path leads to is reached without detours as well. -/
theorem LeadsIn.ofPlace (h : d.LeadsIn q) (habsolute : q.isAbsolute = true) :
    d.LeadsIn (.ofPlace (q.place [])) := by
  obtain ⟨-, entries, hnode⟩ := h
  have hnames : ∀ name ∈ q.place [], Path.IsName name := fun name => Path.isName_of_mem_place_top
  have hreversed : ∀ name ∈ (q.place []).reverse, Path.IsName name := fun name hname =>
    hnames name (List.mem_reverse.1 hname)
  rw [Path.place_of_isAbsolute d.here habsolute] at hnode
  have hreached : d.tree.walk [] (q.place []).reverse = .ok ((q.place []).reverse.reverse ++ []) :=
    Node.walk_names hreversed hnode
  rw [List.reverse_reverse, List.append_nil] at hreached
  unfold LeadsIn
  rw [Path.place_ofPlace d.here hnames, Path.moves_ofPlace hnames, Path.origin,
    if_pos (Path.isAbsolute_ofPlace _)]
  exact ⟨hreached, entries, hnode⟩

/-- Paths that lead to the same directory have the same entries. -/
theorem LeadsIn.sameEntries (hq : d.LeadsIn q) (hr : d.LeadsIn r)
    (hplace : q.place d.here = r.place d.here) : d.SameEntries q r := by
  intro name hname
  rw [locate_entry d q hname, locate_entry d r hname, Node.walk_append, Node.walk_append, hq.1,
    hr.1, hplace]

/-- What does not go up has the same entries, be they there or not, as its place. -/
theorem sameEntries_of_names (hup : .parent ∉ q.components)
    (horigin : d.tree.walk [] (q.origin d.here).reverse = .ok (q.origin d.here))
    (hnames : ∀ name ∈ q.place d.here, Path.IsName name) :
    d.SameEntries q (.ofPlace (q.place d.here)) := by
  intro name hname
  have htop : (Path.ofPlace (q.place d.here)).origin d.here = [] := by
    rw [Path.origin, if_pos (Path.isAbsolute_ofPlace _)]
  have hplace : (q.place d.here).reverse = (q.origin d.here).reverse ++ q.names := by
    rw [Path.place_eq d.here hup, List.reverse_append, List.reverse_reverse]
  rw [locate_entry d q hname, locate_entry d _ hname, Path.moves_ofPlace hnames, htop,
    Path.moves_eq_names hup, hplace, List.append_assoc, Node.walk_append d.tree [], horigin]
  rfl

end Disk

end Concord
