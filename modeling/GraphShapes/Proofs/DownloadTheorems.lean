/-
GraphShapes.Proofs.DownloadTheorems — the file that an object is downloaded into.

An address in text is a scheme, a bucket, and a key behind the first slash after it. Whatever
slashes, points and schemes the key has in it, a bucket without slashes and its key are read
back as they were written (`Address.ofString_append`).

Of the name of the local file only the two ends are known: it begins as all of them do, and
ends with the suffix of the key. But a suffix has one point, in front, and no slash; and no
point comes up in what stands before it. So the suffix of the file is the one that was asked
for (`FileMaker.Keeps.suffix_eq`), and the file is read in the format that the key stands for,
or refused as the key would be (`download_keeps_format`).

  §1 Addresses — a bucket and a key, and the text of the two.
  §2 Makers    — what is known of the names of new files.
  §3 Downloads — what is asked of the store, and how the file is read.
-/
import GraphShapes.Transfer
import GraphShapes.Proofs.FormatTheorems

namespace GraphShapes

variable {bucket key path : String} {make : FileMaker}

/-! ## §1 Addresses -/

/-- A bucket ends where the first slash stands, and the rest is the key. -/
theorem Address.split_append {cs : List Char} (h : '/' ∉ cs) (ks : List Char) :
    Address.split (cs ++ '/' :: ks) = .ok ⟨String.ofList cs, String.ofList ks⟩ := by
  have hall : ∀ c ∈ cs, decide (c ≠ '/') = true := by
    intro c hc
    simpa using fun hslash : c = '/' => h (hslash ▸ hc)
  rw [split, List.dropWhile_append_of_pos hall, List.takeWhile_append_of_pos hall,
    List.dropWhile_cons_of_neg (by simp), List.takeWhile_cons_of_neg (by simp), List.append_nil]

/-- **Addresses.** The text of a bucket and a key is read as these. -/
theorem Address.ofString_append (hbucket : '/' ∉ bucket.toList) (key : String) :
    Address.ofString ("s3://" ++ bucket ++ "/" ++ key) = .ok ⟨bucket, key⟩ := by
  have htext : ("s3://" ++ bucket ++ "/" ++ key).toList
      = 's' :: '3' :: ':' :: '/' :: '/' :: (bucket.toList ++ '/' :: key.toList) := by
    simp
  rw [ofString, htext]
  simp [split_append hbucket]

/-! ## §2 Makers -/

namespace Transfer

variable {directory middle start suffix name : String}

theorem checkName_eq_ok_iff :
    checkName name = .ok () ↔ '\x00' ∉ name.toList ∧ name.utf8ByteSize ≤ Files.maxName := by
  rw [checkName, guard_eq_ok_iff, guard_eq_ok_iff, String.contains_char_eq, decide_eq_true_eq,
    Nat.not_lt, and_iff_left rfl]

theorem makerIn_eq_ok_iff :
    makerIn directory middle start suffix = .ok path ↔
      checkName (start ++ middle ++ suffix) = .ok () ∧
        ((Path.ofString directory).append (start ++ middle ++ suffix)).toString = path := by
  constructor
  · intro h
    obtain ⟨_, hname, hpath⟩ := bind_eq_ok_iff.mp h
    exact ⟨hname, pure_eq_ok_iff.mp hpath⟩
  · rintro ⟨hname, rfl⟩
    exact bind_eq_ok_iff.mpr ⟨(), hname, rfl⟩

end Transfer

namespace FileMaker

/-- A character that a maker may put between the two ends of a name. -/
def isGenerated (c : Char) : Bool := c.isLower || c.isDigit || c == '_'

/-- A maker keeps to the two ends that it is given, if they have no slashes: the last name of
the path begins and ends with them, and has small letters, digits and underscores in between. -/
def Keeps (make : FileMaker) : Prop :=
  ∀ start suffix path, '/' ∉ start.toList → '/' ∉ suffix.toList → make start suffix = .ok path →
    ∃ generated : String, generated.toList.all isGenerated = true ∧
      (Path.ofString path).names.getLast? = some (start ++ generated ++ suffix)

/-- **Suffixes.** The file has the suffix of the key. -/
theorem Keeps.suffix_eq (hmake : make.Keeps)
    (hpath : make Transfer.stem (Path.ofString key).suffix = .ok path) :
    (Path.ofString path).suffix = (Path.ofString key).suffix := by
  obtain ⟨generated, hgenerated, hlast⟩ := hmake _ _ _ (by decide +kernel)
    (Path.slash_not_mem_suffix (Path.isNormal_ofString key)) hpath
  have hpoint : '.' ∉ (Transfer.stem ++ generated).toList := by
    rw [String.toList_append, List.mem_append, not_or]
    constructor
    · decide +kernel
    · intro hmem
      have hchar := List.all_eq_true.mp hgenerated '.' hmem
      revert hchar
      decide
  have hne : Transfer.stem ++ generated ≠ "" := by
    simp [← String.toList_inj, Transfer.stem]
  obtain ⟨n, hn⟩ := Path.exists_suffixOf_eq (Path.ofString key)
  rw [Path.suffix, hlast, hn]
  exact Path.suffixOf_append hne hpoint n

/-- Some name is the last one. -/
theorem Keeps.names_ne_nil (hmake : make.Keeps)
    (hpath : make Transfer.stem (Path.ofString key).suffix = .ok path) :
    (Path.ofString path).names ≠ [] := by
  obtain ⟨generated, -, hlast⟩ := hmake _ _ _ (by decide +kernel)
    (Path.slash_not_mem_suffix (Path.isNormal_ofString key)) hpath
  intro hnil
  rw [hnil] at hlast
  cases hlast

/-- A maker in a directory is one of those, if it puts at least two such characters into a
name. -/
theorem keeps_makerIn (directory : String) {middle : String}
    (hmiddle : middle.toList.all isGenerated = true) (hlength : 1 < middle.length) :
    Keeps (Transfer.makerIn directory middle) := by
  intro start suffix path hstart hsuffix hpath
  obtain ⟨-, rfl⟩ := Transfer.makerIn_eq_ok_iff.mp hpath
  refine ⟨middle, hmiddle, ?_⟩
  have hstep : Path.isStep (start ++ middle ++ suffix) = true := by
    apply Path.isStep_of_one_lt_length
    rw [String.length_append, String.length_append]
    omega
  have hplain : '/' ∉ (start ++ middle ++ suffix).toList := by
    have hslash : '/' ∉ middle.toList := by
      intro hmem
      have hchar := List.all_eq_true.mp hmiddle '/' hmem
      revert hchar
      decide
    simp [hstart, hslash, hsuffix]
  rw [Path.ofString_toString ((Path.isNormal_ofString directory).append hstep hplain)]
  exact List.getLast?_concat

end FileMaker

/-! ## §3 Downloads -/

namespace Transfer

/-- A file that is made takes in what the store has under the address. -/
theorem fetch_eq_ok {a : Address} {objects : Objects} {bytes : List UInt8}
    (hpath : make stem a.suffix = .ok path) (hobject : objects.lookup a = some bytes) :
    fetch make objects a = .ok ⟨Path.ofString path, ⟨[(Path.ofString path, bytes)]⟩⟩ := by
  simp only [fetch, hpath, hobject, ok_bind]

theorem fetch_eq_error {a : Address} {objects : Objects}
    (hpath : make stem a.suffix = .ok path) (hobject : objects.lookup a = none) :
    fetch make objects a = .error .fileMissing := by
  simp only [fetch, hpath, hobject, ok_bind]

/-- Of the store nothing but the object at the address is asked for. -/
theorem download_append (hbucket : '/' ∉ bucket.toList)
    (hpath : make stem (Path.ofString key).suffix = .ok path) (objects : Objects) :
    download make objects ("s3://" ++ bucket ++ "/" ++ key) =
      match objects.lookup ⟨bucket, key⟩ with
      | some bytes => .ok ⟨Path.ofString path, ⟨[(Path.ofString path, bytes)]⟩⟩
      | none => .error (.misuse .fileMissing) := by
  have hmade : make stem (Address.suffix ⟨bucket, key⟩) = .ok path := hpath
  rw [download, Address.ofString_append hbucket, ok_bind]
  cases hobject : objects.lookup ⟨bucket, key⟩ with
  | some bytes => rw [fetch_eq_ok hmade hobject, Fault.ofMisuse, mapError_ok]
  | none => rw [fetch_eq_error hmade hobject, Fault.ofMisuse, mapError_error]

/-- **Downloads.** A bucket without slashes and any key are written as an address, and a file is
made for the object. The object is then asked for by just that bucket and that key, and comes
into the file, which has the suffix of the key. Whatever format a file with the name of the key
is read in, the local file is read in it; and if there is none, both are refused alike, with
that suffix. -/
theorem download_keeps_format [Json.Nesting] (hmake : make.Keeps) (hbucket : '/' ∉ bucket.toList)
    (hpath : make stem (Path.ofString key).suffix = .ok path) :
    (∀ objects : Objects, download make objects ("s3://" ++ bucket ++ "/" ++ key) =
      match objects.lookup ⟨bucket, key⟩ with
      | some bytes => .ok ⟨Path.ofString path, ⟨[(Path.ofString path, bytes)]⟩⟩
      | none => .error (.misuse .fileMissing)) ∧
    (Path.ofString path).suffix = (Path.ofString key).suffix ∧
    (∀ f, Format.ofSuffix (Path.ofString key).suffix = .ok f → ∀ files validate,
      loadGraph files validate (Path.ofString path).toString
        = f.read files validate (Path.ofString path).toString ∧
      loadGraph files validate key = f.read files validate key) ∧
    (∀ fault, Format.ofSuffix (Path.ofString key).suffix = .error fault →
      fault = .validation
        (.unknownFormat (Text.lower (Path.ofString key).suffix) ".json, .onnx") ∧
      ∀ files validate, loadGraph files validate (Path.ofString path).toString = .error fault ∧
        loadGraph files validate key = .error fault) := by
  have hsuffix := hmake.suffix_eq hpath
  have hlocal : (Path.ofString (Path.ofString path).toString).suffix
      = (Path.ofString key).suffix := by
    rw [Path.ofString_toString (Path.isNormal_ofString path), hsuffix]
  refine ⟨download_append hbucket hpath, hsuffix, ?_, ?_⟩
  · intro f hf files validate
    rw [loadGraph, loadGraph, hlocal, hf]
    exact ⟨rfl, rfl⟩
  · intro fault hfault
    refine ⟨Format.eq_of_ofSuffix_eq_error hfault, ?_⟩
    intro files validate
    rw [loadGraph, loadGraph, hlocal, hfault]
    exact ⟨rfl, rfl⟩

/-- A maker of temporary files, with mixed characters in the middle of their names. -/
def scratchMaker : FileMaker := makerIn "/tmp" "k3_x9q2a"

/-- It keeps to the ends that it is given. -/
theorem keeps_scratchMaker : scratchMaker.Keeps :=
  FileMaker.keeps_makerIn "/tmp" (by decide +kernel) (by decide +kernel)

/-- A key with slashes, points and a scheme in it. -/
def nestedKey : String := "v2//a.b/s3://x/..m.tar.JSON/"

/-- Its object is asked for as it stands, and comes into a file with its last suffix. -/
theorem download_nested :
    scratchMaker.Keeps ∧ '/' ∉ "models".toList ∧
      scratchMaker stem (Path.ofString nestedKey).suffix
        = .ok "/tmp/shapeflow_model_k3_x9q2a.JSON" ∧
      (∃ fetched, download scratchMaker [(⟨"models", nestedKey⟩, [])]
          "s3://models/v2//a.b/s3://x/..m.tar.JSON/" = .ok fetched ∧
        fetched.file.suffix = ".JSON" ∧ fetched.files.entries = [(fetched.file, [])]) ∧
      Format.ofSuffix (Path.ofString nestedKey).suffix = .ok .json := by
  have hbucket : '/' ∉ "models".toList := by decide +kernel
  have hsuffix : (Path.ofString nestedKey).suffix = ".JSON" := by decide +kernel
  have hpath : scratchMaker stem (Path.ofString nestedKey).suffix
      = .ok "/tmp/shapeflow_model_k3_x9q2a.JSON" := by
    rw [hsuffix]
    exact makerIn_eq_ok_iff.mpr
      ⟨checkName_eq_ok_iff.mpr (by decide +kernel), by decide +kernel⟩
  have huri : "s3://models/v2//a.b/s3://x/..m.tar.JSON/"
      = "s3://" ++ "models" ++ "/" ++ nestedKey := by
    decide +kernel
  obtain ⟨hdownload, hkept, -, -⟩ := download_keeps_format keeps_scratchMaker hbucket hpath
  refine ⟨keeps_scratchMaker, hbucket, hpath, ?_, eq_ok_of_toOption (by decide +kernel)⟩
  rw [huri, hdownload, List.lookup_cons_self]
  exact ⟨_, rfl, hkept.trans hsuffix, rfl⟩

end Transfer

end GraphShapes
