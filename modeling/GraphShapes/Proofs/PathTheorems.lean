/-
GraphShapes.Proofs.PathTheorems — a path and the text that writes it.

Many texts write the same path, and `toString` writes it in one of them. That one is
read back as the path (`ofString_toString`), so it names the same file and has the same
suffix, and it is made of characters of the text that the path was read from, in their
order (`toString_sublist`), so it is no longer. Whoever can read a file under any text
can read it under that one, then (`readBytes_toString`).

A suffix is where the last name ends (`isSuffix_suffixOf`), and another name that ends in it
has the same one (`suffixOf_append`).

  §1 Segments — a text is its segments with slashes between them.
  §2 Texts    — the text of a path, and the path of a text.
  §3 Suffixes — what a name has from its last point on.
  §4 Files    — reading a file under the text of its path.
-/
import GraphShapes.Files
import GraphShapes.Proofs.ResultTheorems
import Mathlib.Data.List.TakeWhile

namespace GraphShapes

namespace Path

variable {cs : List Char} {s n : String} {p : Path}

/-! ## §1 Segments -/

/-- A slash begins a new segment, and any other character belongs to the first one. -/
theorem exists_splitOn_cons (c : Char) (cs : List Char) :
    ∃ first rest, cs.splitOn '/' = first :: rest ∧
      (c :: cs).splitOn '/' = if c = '/' then [] :: first :: rest else (c :: first) :: rest := by
  obtain ⟨first, rest, hsplit⟩ := List.exists_cons_of_ne_nil (List.splitOnP_ne_nil (· == '/') cs)
  refine ⟨first, rest, hsplit, ?_⟩
  rw [List.splitOn, List.splitOnP_cons_eq_if_modifyHead, hsplit]
  simp

theorem segments_eq (cs : List Char) : segments cs = (cs.splitOn '/').map String.ofList := by
  unfold segments
  refine congrArg (List.map String.ofList) ?_
  induction cs with
  | nil => simp
  | cons c cs ih =>
    obtain ⟨first, rest, hsplit, hcons⟩ := exists_splitOn_cons c cs
    rw [List.foldr_cons, ih, hcons, hsplit]

/-- A text is its segments with slashes between them. -/
theorem intercalate_segments (cs : List Char) :
    ['/'].intercalate ((segments cs).map String.toList) = cs := by
  rw [segments_eq, List.map_map]
  simp

theorem slash_not_mem_of_mem_splitOn {part : List Char} (h : part ∈ cs.splitOn '/') :
    '/' ∉ part := by
  induction cs generalizing part with
  | nil =>
    rw [List.splitOn_nil, List.mem_singleton] at h
    simp [h]
  | cons c cs ih =>
    obtain ⟨first, rest, hsplit, hcons⟩ := exists_splitOn_cons c cs
    rw [hsplit] at ih
    rw [hcons] at h
    split at h
    · rcases List.mem_cons.mp h with rfl | hpart
      · exact List.not_mem_nil
      · exact ih hpart
    · next hc =>
      rcases List.mem_cons.mp h with rfl | hpart
      · rw [List.mem_cons, not_or]
        exact ⟨Ne.symm hc, ih List.mem_cons_self⟩
      · exact ih (List.mem_cons_of_mem first hpart)

theorem slash_not_mem_of_mem_segments (h : n ∈ segments cs) : '/' ∉ n.toList := by
  rw [segments_eq] at h
  obtain ⟨part, hpart, rfl⟩ := List.mem_map.mp h
  rw [String.toList_ofList]
  exact slash_not_mem_of_mem_splitOn hpart

/-- Segments with slashes between them are the segments of that text. -/
theorem segments_intercalate {names : List String} (hnames : names ≠ [])
    (hslash : ∀ n ∈ names, '/' ∉ n.toList) :
    segments (['/'].intercalate (names.map String.toList)) = names := by
  rw [segments_eq, List.splitOn_intercalate '/' (by simpa using hslash) (by simpa using hnames)]
  simp [List.map_map, Function.comp_def]

theorem segments_slash_cons (cs : List Char) : segments ('/' :: cs) = "" :: segments cs := by
  simp [segments_eq, List.splitOn, List.splitOnP_cons_eq_if_modifyHead]

/-- A character that is no slash belongs to the last segment. -/
theorem exists_segments_concat {c : Char} (hc : c ≠ '/') (cs : List Char) :
    ∃ front last, segments (cs ++ [c]) = front ++ [String.ofList (last ++ [c])] := by
  have hsplit : ∃ front last, (cs ++ [c]).splitOn '/' = front ++ [last ++ [c]] := by
    induction cs with
    | nil => exact ⟨[], [], by simp [List.splitOn, List.splitOnP_cons_eq_if_modifyHead, hc]⟩
    | cons d cs ih =>
      obtain ⟨front, last, hlast⟩ := ih
      obtain ⟨first, rest, hcs, hcons⟩ := exists_splitOn_cons d (cs ++ [c])
      rw [List.cons_append, hcons]
      split
      · exact ⟨[] :: front, last, by rw [← hcs, hlast, List.cons_append]⟩
      · cases front with
        | nil =>
          obtain ⟨rfl, rfl⟩ := List.cons.inj (hcs.symm.trans hlast)
          exact ⟨[], d :: last, rfl⟩
        | cons f front =>
          obtain ⟨rfl, rfl⟩ := List.cons.inj (hcs.symm.trans hlast)
          exact ⟨(d :: first) :: front, last, rfl⟩
  obtain ⟨front, last, hlast⟩ := hsplit
  exact ⟨front.map String.ofList, last, by simp [segments_eq, hlast]⟩

/-! ## §2 Texts -/

/-- Is a segment a name on the way? -/
def isStep (n : String) : Bool := n != "" && n != "."

theorem isStep_of_one_lt_length (h : 1 < n.length) : isStep n = true := by
  rw [isStep, Bool.and_eq_true, bne_iff_ne, bne_iff_ne]
  constructor
  all_goals
    rintro rfl
    revert h
    decide +kernel

/-- A slash in front adds no name. -/
theorem filter_segments_slash_cons (cs : List Char) :
    (segments ('/' :: cs)).filter isStep = (segments cs).filter isStep := by
  rw [segments_slash_cons, List.filter_cons_of_neg (by decide)]

theorem names_ofString (s : String) : (ofString s).names = (segments s.toList).filter isStep := rfl

/-- A path as a text can write it. -/
structure IsNormal (p : Path) : Prop where
  root : p.root = "" ∨ p.root = "/" ∨ p.root = "//"
  steps : ∀ n ∈ p.names, isStep n = true
  plain : ∀ n ∈ p.names, '/' ∉ n.toList

theorem isNormal_ofString (s : String) : (ofString s).IsNormal where
  root := by
    simp only [ofString]
    unfold rootOf
    split <;> simp
  steps n hn := (List.mem_filter.mp hn).2
  plain n hn := slash_not_mem_of_mem_segments (List.mem_filter.mp hn).1

/-- The names of a path with slashes between them. -/
def body (names : List String) : List Char := ['/'].intercalate (names.map String.toList)

theorem body_cons_cons (n n' : String) (rest : List String) :
    body (n :: n' :: rest) = n.toList ++ '/' :: body (n' :: rest) := by
  simp [body]

theorem toList_ne_nil_of_isStep (h : isStep n = true) : n.toList ≠ [] := by
  intro hnil
  rw [String.toList_eq_nil_iff.mp hnil] at h
  cases h

/-- Names begin with a character that is no slash. -/
theorem exists_body_eq {names : List String} (hnames : names ≠ [])
    (hsteps : ∀ n ∈ names, isStep n = true) (hplain : ∀ n ∈ names, '/' ∉ n.toList) :
    ∃ c rest, body names = c :: rest ∧ c ≠ '/' := by
  obtain ⟨n, rest, rfl⟩ := List.exists_cons_of_ne_nil hnames
  have hslash := hplain n List.mem_cons_self
  obtain ⟨c, tail, hn⟩ := List.exists_cons_of_ne_nil
    (toList_ne_nil_of_isStep (hsteps n List.mem_cons_self))
  rw [hn, List.mem_cons, not_or] at hslash
  cases rest with
  | nil => exact ⟨c, tail, by simp [body, hn], fun h => hslash.1 h.symm⟩
  | cons n' rest =>
    exact ⟨c, tail ++ '/' :: body (n' :: rest), by simp [body, hn], fun h => hslash.1 h.symm⟩

/-- The text ends with the last name. By induction on the names in front of it. -/
theorem isSuffix_body (front : List String) (n : String) :
    n.toList <:+ body (front ++ [n]) := by
  induction front with
  | nil => simp [body]
  | cons m front ih =>
    obtain ⟨n', rest, hrest⟩ := List.exists_cons_of_ne_nil (List.concat_ne_nil n front)
    rw [List.cons_append, hrest, body_cons_cons, ← hrest]
    exact (ih.trans (List.suffix_cons _ _)).trans (List.suffix_append _ _)

/-- So names do not end in a slash either. -/
theorem getLast?_body_ne {names : List String} (hnames : names ≠ [])
    (hsteps : ∀ n ∈ names, isStep n = true) (hplain : ∀ n ∈ names, '/' ∉ n.toList) :
    (body names).getLast? ≠ some '/' := by
  obtain ⟨front, n, rfl⟩ := (List.eq_nil_or_concat names).resolve_left hnames
  rw [List.concat_eq_append] at hsteps hplain ⊢
  have hn : n ∈ front ++ [n] := List.mem_append_right _ (List.mem_singleton_self n)
  obtain ⟨before, hbody⟩ := isSuffix_body front n
  rw [← hbody, List.getLast?_append_of_ne_nil _ (toList_ne_nil_of_isStep (hsteps n hn))]
  exact fun hlast => hplain n hn (List.mem_of_getLast? hlast)

theorem toList_toString (hnames : p.names ≠ []) (h : p.IsNormal) :
    p.toString.toList = p.root.toList ++ body p.names := by
  obtain ⟨c, rest, hbody, _⟩ := exists_body_eq hnames h.steps h.plain
  have htext : (p.root ++ "/".intercalate p.names).toList = p.root.toList ++ body p.names := by
    rw [String.toList_append, String.toList_intercalate]
    rfl
  have hne : (p.root ++ "/".intercalate p.names).isEmpty = false := by
    rw [← Bool.not_eq_true, String.isEmpty_iff, ← String.toList_eq_nil_iff, htext, hbody]
    simp
  rw [toString]
  simp only [hne, Bool.false_eq_true, if_false]
  exact htext

theorem getLast?_toString_ne (hnames : p.names ≠ []) (h : p.IsNormal) :
    p.toString.toList.getLast? ≠ some '/' := by
  obtain ⟨c, rest, hbody, _⟩ := exists_body_eq hnames h.steps h.plain
  have hend := getLast?_body_ne hnames h.steps h.plain
  rw [toList_toString hnames h]
  rw [hbody] at hend ⊢
  rwa [List.getLast?_append_of_ne_nil _ (List.cons_ne_nil _ _)]

theorem IsNormal.append (h : p.IsNormal) (hstep : isStep n = true) (hplain : '/' ∉ n.toList) :
    (p.append n).IsNormal where
  root := h.root
  steps := List.forall_mem_append.mpr ⟨h.steps, List.forall_mem_singleton.mpr hstep⟩
  plain := List.forall_mem_append.mpr ⟨h.plain, List.forall_mem_singleton.mpr hplain⟩

/-- **Texts.** The text of a path is read as the path. -/
theorem ofString_toString (h : p.IsNormal) : ofString p.toString = p := by
  obtain ⟨root, names⟩ := p
  by_cases hnames : names = []
  · subst hnames
    rcases h.root with rfl | rfl | rfl <;> decide +kernel
  · obtain ⟨c, rest, hbody, hc⟩ := exists_body_eq hnames h.steps h.plain
    have hsegments : (segments (body names)).filter isStep = names := by
      rw [body, segments_intercalate hnames h.plain]
      exact List.filter_eq_self.mpr h.steps
    have hroot : rootOf (root.toList ++ body names) = root := by
      rw [hbody]
      rcases h.root with rfl | rfl | rfl <;> simp [rootOf, hc]
    have hnamed : (segments (root.toList ++ body names)).filter isStep = names := by
      rcases h.root with rfl | rfl | rfl
      · exact hsegments
      · exact (filter_segments_slash_cons _).trans hsegments
      · exact ((filter_segments_slash_cons _).trans (filter_segments_slash_cons _)).trans hsegments
    have htext := toList_toString hnames h
    rw [ofString, htext]
    exact congrArg₂ Path.mk hroot hnamed

/-- Without some of the names a text is shorter, and has no other characters. -/
theorem body_filter_sublist (keep : String → Bool) (names : List String) :
    (body (names.filter keep)).Sublist (body names) := by
  induction names with
  | nil => exact List.Sublist.refl _
  | cons n rest ih =>
    cases rest with
    | nil =>
      by_cases hkeep : keep n = true
      · rw [List.filter_cons_of_pos hkeep, List.filter_nil]
      · rw [List.filter_cons_of_neg hkeep, List.filter_nil]
        exact List.nil_sublist _
    | cons n' rest =>
      have hbehind : (body ((n' :: rest).filter keep)).Sublist ('/' :: body (n' :: rest)) :=
        ih.cons '/'
      rw [body_cons_cons]
      by_cases hkeep : keep n = true
      · rw [List.filter_cons_of_pos hkeep]
        cases hrest : (n' :: rest).filter keep with
        | nil =>
          simp only [body, List.map_cons, List.map_nil, List.intercalate_singleton]
          exact List.sublist_append_left _ _
        | cons m ms =>
          rw [body_cons_cons, ← hrest]
          exact (List.Sublist.refl _).append (ih.cons_cons '/')
      · rw [List.filter_cons_of_neg hkeep]
        exact hbehind.trans (List.sublist_append_right _ _)

/-- The text of a path has only characters of the text that the path was read from. -/
theorem toString_sublist (h : (ofString s).names ≠ []) :
    (ofString s).toString.toList.Sublist s.toList := by
  have hbody (cs : List Char) : (body ((segments cs).filter isStep)).Sublist cs := by
    have hfilter := body_filter_sublist isStep (segments cs)
    rwa [body, body, intercalate_segments] at hfilter
  rw [toList_toString h (isNormal_ofString s), names_ofString]
  change ((rootOf s.toList).toList ++ _).Sublist _
  generalize s.toList = cs
  -- The root is made of the slashes in front.
  unfold rootOf
  split
  · simp only [filter_segments_slash_cons]
    exact (((hbody _).cons '/').cons '/').cons_cons '/'
  · simp only [filter_segments_slash_cons]
    exact ((hbody _).cons_cons '/').cons_cons '/'
  · simp only [filter_segments_slash_cons]
    exact (hbody _).cons_cons '/'
  · exact hbody cs

/-- The text of a path with one name is the name. -/
theorem toString_singleton (hstep : isStep n = true) (hplain : '/' ∉ n.toList) :
    toString ⟨"", [n]⟩ = n := by
  have hnormal : IsNormal ⟨"", [n]⟩ :=
    ⟨.inl rfl, List.forall_mem_singleton.mpr hstep, List.forall_mem_singleton.mpr hplain⟩
  rw [← String.toList_inj, toList_toString (List.cons_ne_nil _ _) hnormal]
  simp [body]

theorem ofString_of_isStep (hstep : isStep n = true) (hplain : '/' ∉ n.toList) :
    ofString n = ⟨"", [n]⟩ := by
  have hnormal : IsNormal ⟨"", [n]⟩ :=
    ⟨.inl rfl, List.forall_mem_singleton.mpr hstep, List.forall_mem_singleton.mpr hplain⟩
  have hread := ofString_toString hnormal
  rwa [toString_singleton hstep hplain] at hread

/-! ## §3 Suffixes -/

theorem suffixOf_of_plain (h : '.' ∉ n.toList) : suffixOf n = "" := by
  have hbehind : n.toList.reverse.takeWhile (fun c => decide (c ≠ '.')) = n.toList.reverse := by
    refine List.takeWhile_eq_self_iff.mpr fun c hc => decide_eq_true fun hpoint => h ?_
    exact hpoint ▸ List.mem_reverse.mp hc
  simp only [suffixOf, hbehind, List.length_reverse, String.length_toList, Nat.sub_self]
  rfl

/-- The last point of a name begins its suffix, unless it stands first or last. -/
theorem suffixOf_eq {front tail : List Char} (hn : n.toList = front ++ '.' :: tail)
    (htail : '.' ∉ tail) :
    suffixOf n = if front = [] ∨ tail = [] then "" else String.ofList ('.' :: tail) := by
  have hbehind : n.toList.reverse.takeWhile (fun c => decide (c ≠ '.')) = tail.reverse := by
    have hall : ∀ c ∈ tail.reverse, decide (c ≠ '.') = true := fun c hc =>
      decide_eq_true fun hpoint => htail (hpoint ▸ List.mem_reverse.mp hc)
    rw [hn, List.reverse_append, List.reverse_cons, List.append_assoc,
      List.takeWhile_append_of_pos hall]
    simp
  have hlength : n.length = front.length + 1 + tail.length := by
    rw [← String.length_toList, hn, List.length_append, List.length_cons]
    omega
  simp only [suffixOf, hbehind, List.length_reverse, hlength, Nat.add_sub_cancel,
    List.reverse_reverse]
  simp [List.length_eq_zero_iff]

/-- A suffix is where a name ends, and has one point, in front. -/
theorem suffixOf_cases (n : String) :
    suffixOf n = "" ∨ ∃ front tail, n.toList = front ++ '.' :: tail ∧ tail ≠ [] ∧ '.' ∉ tail ∧
      suffixOf n = String.ofList ('.' :: tail) := by
  by_cases hpoint : '.' ∈ n.toList
  · obtain ⟨tail, front, hn, htail⟩ := List.eq_append_cons_of_mem (List.mem_reverse.mpr hpoint)
    have hname : n.toList = front.reverse ++ '.' :: tail.reverse := by
      rw [← List.reverse_reverse n.toList, hn]
      simp
    have hplain : '.' ∉ tail.reverse := fun h => htail (List.mem_reverse.mp h)
    have hsuffix := suffixOf_eq hname hplain
    split at hsuffix
    · exact .inl hsuffix
    · next hinner =>
      exact .inr ⟨_, _, hname, fun h => hinner (.inr h), hplain, hsuffix⟩
  · exact .inl (suffixOf_of_plain hpoint)

theorem isSuffix_suffixOf (n : String) : (suffixOf n).toList <:+ n.toList := by
  obtain hnone | ⟨front, tail, hn, -, -, hsuffix⟩ := suffixOf_cases n
  · rw [hnone]
    exact List.nil_suffix
  · rw [hsuffix, String.toList_ofList, hn]
    exact List.suffix_append _ _

/-- A suffix behind a name without points is the suffix of the whole. -/
theorem suffixOf_append {stem : String} (hstem : stem ≠ "") (hpoint : '.' ∉ stem.toList)
    (n : String) : suffixOf (stem ++ suffixOf n) = suffixOf n := by
  obtain hnone | ⟨front, tail, -, htail, hplain, hsuffix⟩ := suffixOf_cases n
  · rw [hnone, String.append_empty, suffixOf_of_plain hpoint]
  · have hfront : ¬ (stem.toList = [] ∨ tail = []) := by
      rw [String.toList_eq_nil_iff]
      exact not_or.mpr ⟨hstem, htail⟩
    have hwhole : (stem ++ suffixOf n).toList = stem.toList ++ '.' :: tail := by
      rw [String.toList_append, hsuffix, String.toList_ofList]
    rw [suffixOf_eq hwhole hplain, if_neg hfront, hsuffix]

/-- The suffix of a path is that of a name, if it has any. -/
theorem suffix_cases (p : Path) : p.suffix = "" ∨
    ∃ front n, p.names = front ++ [n] ∧ p.suffix = suffixOf n := by
  unfold suffix
  split
  · next n hlast =>
    obtain ⟨front, hnames⟩ := List.getLast?_eq_some_iff.mp hlast
    exact .inr ⟨front, n, hnames, rfl⟩
  · exact .inl rfl

/-- It is that of some name at any rate. -/
theorem exists_suffixOf_eq (p : Path) : ∃ n, p.suffix = suffixOf n := by
  obtain hnone | ⟨_, n, _, hsuffix⟩ := suffix_cases p
  · exact ⟨"", hnone⟩
  · exact ⟨n, hsuffix⟩

/-- A text that ends neither in a slash nor in a point ends as the suffix of its path. -/
theorem getLast?_suffix {c : Char} (hlast : s.toList.getLast? = some c) (hslash : c ≠ '/')
    (hpoint : c ≠ '.') (hne : (ofString s).suffix ≠ "") :
    (ofString s).suffix.toList.getLast? = some c := by
  obtain ⟨cs, hs⟩ := List.getLast?_eq_some_iff.mp hlast
  obtain ⟨front, last, hsegments⟩ := exists_segments_concat hslash cs
  have hstep : isStep (String.ofList (last ++ [c])) = true := by
    rw [isStep, Bool.and_eq_true, bne_iff_ne, bne_iff_ne]
    constructor
    all_goals
      intro h
      have hends := congrArg (fun n => n.toList.getLast?) h
      simp only [String.toList_ofList, List.getLast?_concat] at hends
      revert hends
      simp [hpoint]
  have hnames : (ofString s).names = front.filter isStep ++ [String.ofList (last ++ [c])] := by
    rw [names_ofString, hs, hsegments, List.filter_append, List.filter_cons_of_pos hstep,
      List.filter_nil]
  have hsuffix : (ofString s).suffix = suffixOf (String.ofList (last ++ [c])) := by
    rw [suffix, hnames, List.getLast?_concat]
  obtain ⟨before, hbefore⟩ := isSuffix_suffixOf (String.ofList (last ++ [c]))
  rw [← hsuffix, String.toList_ofList] at hbefore
  have hends := congrArg List.getLast? hbefore
  rwa [List.getLast?_append_of_ne_nil _ (mt String.toList_eq_nil_iff.mp hne),
    List.getLast?_concat] at hends

/-- There is no slash in it. -/
theorem slash_not_mem_suffix (h : p.IsNormal) : '/' ∉ p.suffix.toList := by
  obtain hnone | ⟨front, n, hnames, hsuffix⟩ := suffix_cases p
  · rw [hnone]
    exact List.not_mem_nil
  · intro hslash
    rw [hsuffix] at hslash
    refine h.plain n ?_ ((isSuffix_suffixOf n).subset hslash)
    rw [hnames]
    exact List.mem_append_right _ (List.mem_singleton_self n)

end Path

/-! ## §4 Files -/

namespace Files

/-- Fewer characters take fewer bytes. -/
theorem utf8ByteSize_le_of_sublist {s t : String} (h : s.toList.Sublist t.toList) :
    s.utf8ByteSize ≤ t.utf8ByteSize := by
  have hchars {cs ds : List Char} (h : cs.Sublist ds) :
      (String.ofList cs).utf8ByteSize ≤ (String.ofList ds).utf8ByteSize := by
    induction h with
    | slnil => exact Nat.le_refl _
    | cons c _ ih =>
      rw [String.ofList_cons, String.utf8ByteSize_append]
      omega
    | cons_cons c _ ih =>
      rw [String.ofList_cons, String.ofList_cons, String.utf8ByteSize_append,
        String.utf8ByteSize_append]
      omega
  simpa using hchars h

variable {files : Files} {s : String} {p : Path} {bytes : List UInt8} {asDirectory : Bool}

theorem readAt_eq_ok_iff :
    files.readAt p asDirectory = .ok bytes ↔
      asDirectory = false ∧ ∃ q, files.resolve p = .ok q ∧ files.isDirectory q = false ∧
        files.file? q = some bytes := by
  unfold readAt
  cases files.resolve p with
  | error m => simp
  | ok q =>
    simp only [ok_bind, Except.ok.injEq, exists_eq_left']
    cases files.isDirectory q <;> cases files.file? q <;> cases asDirectory <;> simp

/-- A path without names leads to a directory. -/
theorem names_ne_nil_of_readAt (h : files.readAt p asDirectory = .ok bytes) : p.names ≠ [] := by
  intro hnames
  obtain ⟨-, q, hq, hdirectory, -⟩ := readAt_eq_ok_iff.mp h
  have hroot : q.names = [] := by
    unfold resolve at hq
    split at hq
    · cases hq
      exact hnames
    · rw [hnames] at hq
      cases hq
      rfl
  simp [isDirectory, hroot] at hdirectory

theorem readBytes_eq_ok_iff :
    files.readBytes s = .ok bytes ↔
      '\x00' ∉ s.toList ∧ s ≠ "" ∧ s.utf8ByteSize ≤ maxPath ∧
        files.readAt (Path.ofString s) (s.toList.getLast? == some '/') = .ok bytes := by
  rw [readBytes, guard_eq_ok_iff, guard_eq_ok_iff, guard_eq_ok_iff, String.contains_char_eq,
    decide_eq_true_eq, String.isEmpty_iff, Nat.not_lt]

/-- The only file that there is can be read under any text that writes its path and asks for
no directory. -/
theorem readBytes_only (hnul : '\x00' ∉ s.toList) (hsize : s.utf8ByteSize ≤ maxPath)
    (hlast : s.toList.getLast? ≠ some '/') (hnames : (Path.ofString s).names ≠ [])
    (bytes : List UInt8) : readBytes ⟨[(Path.ofString s, bytes)]⟩ s = .ok bytes := by
  have hne : s ≠ "" := by
    rintro rfl
    exact hnames (by decide +kernel)
  have hfile : file? ⟨[(Path.ofString s, bytes)]⟩ (Path.ofString s) = some bytes := by
    simp [file?]
  refine readBytes_eq_ok_iff.mpr ⟨hnul, hne, hsize, readAt_eq_ok_iff.mpr
    ⟨beq_eq_false_iff_ne.mpr hlast, Path.ofString s, ?_, ?_, hfile⟩⟩
  · rw [resolve, hfile]
    rfl
  · simp [isDirectory, hnames]

/-- A single file is read under its name. -/
theorem readBytes_singleton (hstep : Path.isStep s = true) (hslash : '/' ∉ s.toList)
    (hnul : '\x00' ∉ s.toList) (hsize : s.utf8ByteSize ≤ maxPath) (bytes : List UInt8) :
    readBytes ⟨[(Path.ofString s, bytes)]⟩ s = .ok bytes := by
  apply readBytes_only hnul hsize
  · exact fun h => hslash (List.mem_of_getLast? h)
  · simp [Path.ofString_of_isStep hstep hslash]

/-- Where a file can be read, there can be one with any other bytes. -/
theorem readBytes_of_readBytes (h : files.readBytes s = .ok bytes) (bytes' : List UInt8) :
    readBytes ⟨[(Path.ofString s, bytes')]⟩ s = .ok bytes' := by
  obtain ⟨hnul, -, hsize, hread⟩ := readBytes_eq_ok_iff.mp h
  apply readBytes_only hnul hsize
  · exact beq_eq_false_iff_ne.mp (readAt_eq_ok_iff.mp hread).1
  · exact names_ne_nil_of_readAt hread

/-- **Files.** A file that can be read under a text can be read under the text of its path. -/
theorem readBytes_toString (h : files.readBytes s = .ok bytes) :
    files.readBytes (Path.ofString s).toString = .ok bytes := by
  obtain ⟨hnul, hempty, hsize, hread⟩ := readBytes_eq_ok_iff.mp h
  have hnames := names_ne_nil_of_readAt hread
  have hnormal := Path.isNormal_ofString s
  have hsub := Path.toString_sublist hnames
  obtain ⟨c, rest, hbody, hc⟩ := Path.exists_body_eq hnames hnormal.steps hnormal.plain
  have htext := Path.toList_toString hnames hnormal
  obtain ⟨hfile, hreads⟩ := readAt_eq_ok_iff.mp hread
  refine readBytes_eq_ok_iff.mpr ⟨fun hmem => hnul (hsub.subset hmem), fun hnil => ?_,
    Nat.le_trans (utf8ByteSize_le_of_sublist hsub) hsize, ?_⟩
  · rw [hnil, hbody] at htext
    simp at htext
  · rw [Path.ofString_toString hnormal]
    exact readAt_eq_ok_iff.mpr
      ⟨beq_eq_false_iff_ne.mpr (Path.getLast?_toString_ne hnames hnormal), hreads⟩

end Files

end GraphShapes
