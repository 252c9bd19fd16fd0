/-
GraphShapes.Proofs.LineEndTheorems — documents whose line ends are rewritten.

A file is read with every line end turned into a line feed. A carriage return is a blank
between tokens and stands in no sound token: a text holds no control character, and words
and numbers hold none either. So the tokens that a token is cut from are firm
(`IsFirm`): the characters that it takes are the same in both texts, and so is the token
(`firstToken_unifyLineEnds`). By induction on the text the row of tokens is the same up to
offsets (`scan_unifyLineEnds`), and so is the value (`readChars_unifyLineEnds`).

  §1 Line ends — what is rewritten, and what is not.
  §2 Texts     — escapes and quoted texts.
  §3 Literals  — words and numbers.
  §4 Rows      — the tokens of a text and its value.
-/
import GraphShapes.Files
import GraphShapes.Proofs.ReaderTheorems

namespace GraphShapes

open Files (unifyLineEnds)

/-! ## §1 Line ends -/

/-- No carriage return is among the first characters of a text. -/
def IsFirm (n : Nat) (cs : List Char) : Prop := '\r' ∉ cs.take n

section LineEnds

variable {c : Char} {cs rest : List Char} {m n : Nat}

@[simp] theorem isFirm_zero (cs : List Char) : IsFirm 0 cs := by
  rw [IsFirm, List.take_zero]
  exact List.not_mem_nil

@[simp] theorem isFirm_succ : IsFirm (n + 1) (c :: rest) ↔ c ≠ '\r' ∧ IsFirm n rest := by
  rw [IsFirm, List.take_succ_cons, List.mem_cons, not_or, IsFirm, ne_comm]

theorem isFirm_add : IsFirm (m + n) cs ↔ IsFirm m cs ∧ IsFirm n (cs.drop m) := by
  rw [IsFirm, List.take_add, List.mem_append, not_or, IsFirm, IsFirm]

theorem unifyLineEnds_cons (h : c ≠ '\r') (rest : List Char) :
    unifyLineEnds (c :: rest) = c :: unifyLineEnds rest := by
  rw [unifyLineEnds]
  · exact fun _ hc => absurd hc h
  · exact h

/-- A carriage return becomes a line feed, or is left out in front of one. -/
theorem unifyLineEnds_return (rest : List Char) :
    unifyLineEnds ('\r' :: rest) = '\n' :: unifyLineEnds rest ∨
      ∃ more, rest = '\n' :: more ∧ unifyLineEnds ('\r' :: rest) = unifyLineEnds rest := by
  by_cases hfeed : ∃ more, rest = '\n' :: more
  · obtain ⟨more, rfl⟩ := hfeed
    refine .inr ⟨more, rfl, ?_⟩
    rw [unifyLineEnds, unifyLineEnds_cons (by decide)]
  · rw [unifyLineEnds]
    · exact .inl rfl
    · exact fun more hmore => hfeed ⟨more, hmore⟩

/-- What is firm is kept. -/
theorem unifyLineEnds_append (front rest : List Char) (h : '\r' ∉ front) :
    unifyLineEnds (front ++ rest) = front ++ unifyLineEnds rest := by
  induction front with
  | nil => rfl
  | cons c front ih =>
    rw [List.mem_cons, not_or] at h
    rw [List.cons_append, unifyLineEnds_cons (Ne.symm h.1), ih h.2, List.cons_append]

theorem drop_unifyLineEnds (h : IsFirm n cs) :
    (unifyLineEnds cs).drop n = unifyLineEnds (cs.drop n) := by
  induction n generalizing cs with
  | zero => rw [List.drop_zero, List.drop_zero]
  | succ n ih =>
    cases cs with
    | nil => rfl
    | cons c rest =>
      rw [isFirm_succ] at h
      rw [unifyLineEnds_cons h.1, List.drop_succ_cons, List.drop_succ_cons, ih h.2]

/-- A character that is no line feed was there before. -/
theorem eq_cons_of_unifyLineEnds (hc : c ≠ '\n') (h : unifyLineEnds cs = c :: rest) :
    ∃ before, cs = c :: before ∧ unifyLineEnds before = rest := by
  cases cs with
  | nil => cases h
  | cons c' before =>
    by_cases hreturn : c' = '\r'
    · subst hreturn
      obtain hfeed | ⟨more, rfl, hfeed⟩ := unifyLineEnds_return before
      · cases hfeed.symm.trans h
        exact absurd rfl hc
      · rw [hfeed, unifyLineEnds_cons (by decide)] at h
        cases h
        exact absurd rfl hc
    · rw [unifyLineEnds_cons hreturn] at h
      cases h
      exact ⟨before, rfl, rfl⟩

theorem not_unifyLineEnds_eq_cons (hc : c ≠ '\n') (h : ∀ before, cs = c :: before → False) :
    ∀ rest, unifyLineEnds cs = c :: rest → False := fun _ hrest =>
  let ⟨before, hbefore, _⟩ := eq_cons_of_unifyLineEnds hc hrest
  h before hbefore

theorem eq_append_of_unifyLineEnds (front : List Char) (hfront : '\n' ∉ front)
    (h : unifyLineEnds cs = front ++ rest) :
    ∃ before, cs = front ++ before ∧ unifyLineEnds before = rest := by
  induction front generalizing cs with
  | nil => exact ⟨cs, rfl, h⟩
  | cons c front ih =>
    rw [List.mem_cons, not_or] at hfront
    obtain ⟨before, rfl, hbefore⟩ := eq_cons_of_unifyLineEnds (Ne.symm hfront.1) h
    obtain ⟨more, rfl, hmore⟩ := ih hfront.2 hbefore
    exact ⟨more, rfl, hmore⟩

/-- The first character is the same, or a line end before and after. -/
theorem exists_unifyLineEnds_cons (c : Char) (rest : List Char) :
    ∃ c' rest', unifyLineEnds (c :: rest) = c' :: rest' ∧
      (c' = c ∧ rest' = unifyLineEnds rest ∨ c = '\r' ∧ c' = '\n') := by
  by_cases hreturn : c = '\r'
  · subst hreturn
    obtain hfeed | ⟨more, rfl, hfeed⟩ := unifyLineEnds_return rest
    · exact ⟨_, _, hfeed, .inr ⟨rfl, rfl⟩⟩
    · rw [hfeed, unifyLineEnds_cons (by decide)]
      exact ⟨_, _, rfl, .inr ⟨rfl, rfl⟩⟩
  · exact ⟨_, _, unifyLineEnds_cons hreturn rest, .inl ⟨rfl, rfl⟩⟩

theorem length_unifyLineEnds_le (cs : List Char) : (unifyLineEnds cs).length ≤ cs.length := by
  induction cs with
  | nil => exact Nat.le_refl _
  | cons c rest ih =>
    by_cases hreturn : c = '\r'
    · subst hreturn
      obtain hfeed | ⟨more, -, hfeed⟩ := unifyLineEnds_return rest
      · rw [hfeed]
        exact Nat.succ_le_succ ih
      · rw [hfeed]
        exact Nat.le_succ_of_le ih
    · rw [unifyLineEnds_cons hreturn]
      exact Nat.succ_le_succ ih

/-- Characters of a class without line ends are the same in front. -/
theorem takeWhile_unifyLineEnds {p : Char → Bool} (hreturn : p '\r' = false)
    (hfeed : p '\n' = false) (cs : List Char) :
    (unifyLineEnds cs).takeWhile p = cs.takeWhile p := by
  induction cs with
  | nil => rfl
  | cons c rest ih =>
    obtain ⟨c', rest', hcons, ⟨rfl, rfl⟩ | ⟨rfl, rfl⟩⟩ := exists_unifyLineEnds_cons c rest
    · rw [hcons, List.takeWhile_cons, List.takeWhile_cons, ih]
    · rw [hcons, List.takeWhile_cons, List.takeWhile_cons, hfeed, hreturn]
      rfl

theorem isFirm_takeWhile {p : Char → Bool} (hreturn : p '\r' = false) (cs : List Char) :
    IsFirm (cs.takeWhile p).length cs := by
  intro hmem
  rw [← List.prefix_iff_eq_take.mp (List.takeWhile_prefix p)] at hmem
  rw [List.mem_takeWhile_imp hmem] at hreturn
  cases hreturn

end LineEnds

namespace Json

variable {c : Char} {cs rest : List Char} {skip distance n width : Nat}

/-! ## §2 Texts -/

theorem hexValue?_return : hexValue? '\r' = none := by decide

/-- No digit of a unit is a carriage return. -/
theorem isFirm_of_unit? {a b c d : Char} (h : unit? a b c d = some n) (rest : List Char) :
    IsFirm 4 (a :: b :: c :: d :: rest) := by
  have hdigit {c : Char} {k : Nat} (hc : hexValue? c = some k) : c ≠ '\r' := by
    rintro rfl
    rw [hexValue?_return] at hc
    cases hc
  simp only [unit?, bind, Option.bind_eq_some_iff] at h
  obtain ⟨_, ha, _, hb, _, hc, _, hd, -⟩ := h
  simp only [isFirm_succ, isFirm_zero, and_true]
  exact ⟨hdigit ha, hdigit hb, hdigit hc, hdigit hd⟩

/-- A second escape stands here, and the text goes on behind it. -/
def Escapes (cs : List Char) : Prop :=
  ∃ a b c d e more, cs = '\\' :: 'u' :: a :: b :: c :: d :: e :: more

/-- A leading unit stands alone where no second escape follows. -/
theorem leadingEscape_of_not_escapes {k : Nat} (h : ¬ Escapes cs) :
    leadingEscape k cs = .ok (k, 5) := by
  unfold leadingEscape
  split
  · exact absurd ⟨_, _, _, _, _, _, rfl⟩ h
  · rfl

theorem leadingEscape_of_unit {k m : Nat} {a b c d e : Char} (h : unit? a b c d = some m) :
    leadingEscape k ('\\' :: 'u' :: a :: b :: c :: d :: e :: rest)
      = if isTrailing m then .ok (ofPair k m, 11) else .ok (k, 5) := by
  rw [leadingEscape, h]

/-- No second escape comes up where line ends are rewritten. -/
theorem escapes_of_unifyLineEnds (h : Escapes (unifyLineEnds cs)) : Escapes cs := by
  obtain ⟨a, b, c, d, e, more, hunified⟩ := h
  obtain ⟨before, rfl, hbefore⟩ :=
    eq_append_of_unifyLineEnds ['\\', 'u'] (by decide) hunified
  have hlength := length_unifyLineEnds_le before
  rw [hbefore] at hlength
  match before, hlength with
  | a :: b :: c :: d :: e :: more, _ => exact ⟨a, b, c, d, e, more, rfl⟩

/-- An escape behind a leading unit takes firm characters. -/
theorem leadingEscape_unifyLineEnds {k : Nat} {p : Nat × Nat}
    (h : leadingEscape k cs = .ok p) :
    leadingEscape k (unifyLineEnds cs) = .ok p ∧ 5 ≤ p.2 ∧ IsFirm (p.2 - 5) cs := by
  by_cases hescapes : Escapes cs
  · obtain ⟨a, b, c, d, e, more, rfl⟩ := hescapes
    cases hunit : unit? a b c d with
    | none =>
      rw [leadingEscape, hunit] at h
      cases h
    | some m =>
      have hfirm : IsFirm 6 ('\\' :: 'u' :: a :: b :: c :: d :: e :: more) :=
        isFirm_succ.mpr ⟨by decide, isFirm_succ.mpr ⟨by decide, isFirm_of_unit? hunit _⟩⟩
      obtain ⟨e', more', hcons, -⟩ := exists_unifyLineEnds_cons e more
      have hkept : unifyLineEnds ('\\' :: 'u' :: a :: b :: c :: d :: e :: more)
          = '\\' :: 'u' :: a :: b :: c :: d :: e' :: more' := by
        rw [← hcons]
        exact unifyLineEnds_append ['\\', 'u', a, b, c, d] (e :: more) hfirm
      rw [leadingEscape_of_unit hunit] at h
      rw [hkept, leadingEscape_of_unit hunit]
      refine ⟨h, ?_⟩
      by_cases htrailing : isTrailing m = true
      · rw [if_pos htrailing] at h
        obtain rfl := Except.ok.inj h
        exact ⟨Nat.le_add_right 5 6, hfirm⟩
      · rw [if_neg htrailing] at h
        cases h
        exact ⟨Nat.le_refl 5, isFirm_zero _⟩
  · rw [leadingEscape_of_not_escapes hescapes] at h
    cases h
    exact ⟨leadingEscape_of_not_escapes (mt escapes_of_unifyLineEnds hescapes), Nat.le_refl 5,
      isFirm_zero _⟩

theorem numberEscape_unifyLineEnds {p : Nat × Nat} (h : numberEscape cs = .ok p) :
    numberEscape (unifyLineEnds cs) = .ok p ∧ 1 ≤ p.2 ∧ IsFirm (p.2 - 1) cs := by
  unfold numberEscape at h
  split at h
  · next a b c d e rest =>
    split at h
    · cases h
    · next m hunit =>
      have hfirm : IsFirm 4 (a :: b :: c :: d :: e :: rest) := isFirm_of_unit? hunit _
      obtain ⟨e', rest', hcons, -⟩ := exists_unifyLineEnds_cons e rest
      have hkept : unifyLineEnds (a :: b :: c :: d :: e :: rest)
          = a :: b :: c :: d :: e' :: rest' := by
        rw [← hcons]
        exact unifyLineEnds_append [a, b, c, d] (e :: rest) hfirm
      rw [hkept, numberEscape, hunit]
      split at h
      · next hleading =>
        obtain ⟨hsecond, hwidth, hmore⟩ := leadingEscape_unifyLineEnds h
        refine ⟨?_, by omega, ?_⟩
        · rw [hcons] at hsecond
          simpa only [if_pos hleading] using hsecond
        · have hsplit : p.2 - 1 = 4 + (p.2 - 5) := by omega
          rw [hsplit, isFirm_add]
          exact ⟨hfirm, hmore⟩
      · next hleading =>
        cases h
        exact ⟨by simp only [if_neg hleading], Nat.le_add_right 1 4, hfirm⟩
  · cases h

/-- An escape takes firm characters. -/
theorem escape_unifyLineEnds {p : Nat × Nat} (h : escape cs = .ok p) :
    escape (unifyLineEnds cs) = .ok p ∧ IsFirm p.2 cs := by
  unfold escape at h
  split at h
  · cases h
  · next rest =>
    obtain ⟨hnumber, hwidth, hfirm⟩ := numberEscape_unifyLineEnds h
    rw [unifyLineEnds_cons (by decide), escape]
    refine ⟨hnumber, ?_⟩
    have hsplit : p.2 = (p.2 - 1) + 1 := by omega
    rw [hsplit, isFirm_succ]
    exact ⟨by decide, hfirm⟩
  · next c rest hother =>
    have hreturn : c ≠ '\r' := by
      rintro rfl
      cases h
    rw [unifyLineEnds_cons hreturn, escape]
    · split at h
      · next d hletter =>
        cases h
        exact ⟨rfl, isFirm_succ.mpr ⟨hreturn, isFirm_zero _⟩⟩
      · cases h
    · exact hother

/-- **Texts.** A text between quotes is firm, so it is read as it was. By induction on the
characters behind the opening quote; those of an escape are firm. -/
theorem textBody_unifyLineEnds {body : List Nat} (hskip : IsFirm skip cs)
    (h : textBody skip distance cs = .ok (body, width)) :
    textBody skip distance (unifyLineEnds cs) = .ok (body, width) ∧ distance < width ∧
      IsFirm (width - distance) cs := by
  induction cs generalizing skip distance body with
  | nil => cases skip <;> cases h
  | cons c rest ih =>
    have hrest {n : Nat} {body : List Nat} (hreturn : c ≠ '\r') (hn : IsFirm n rest)
        (hbody : textBody n (distance + 1) rest = .ok (body, width)) :
        textBody n (distance + 1) (unifyLineEnds rest) = .ok (body, width) ∧ distance < width ∧
          IsFirm (width - distance) (c :: rest) := by
      obtain ⟨hkept, hwidth, hfirm⟩ := ih hn hbody
      have hsplit : width - distance = (width - (distance + 1)) + 1 := by omega
      rw [hsplit, isFirm_succ]
      exact ⟨hkept, by omega, hreturn, hfirm⟩
    cases skip with
    | succ skip =>
      rw [isFirm_succ] at hskip
      rw [unifyLineEnds_cons hskip.1]
      exact hrest hskip.1 hskip.2 h
    | zero =>
      rw [textBody] at h
      split at h
      · next hquote =>
        cases h
        subst hquote
        rw [unifyLineEnds_cons (by decide), textBody, if_pos rfl, Nat.add_sub_cancel_left]
        exact ⟨rfl, Nat.lt_succ_self _, isFirm_succ.mpr ⟨by decide, isFirm_zero _⟩⟩
      · next hquote =>
        split at h
        · next hbackslash =>
          subst hbackslash
          rw [unifyLineEnds_cons (by decide), textBody, if_neg (by decide), if_pos rfl]
          split at h
          · cases h
          · next code taken hescape =>
            obtain ⟨hkept, hfirm⟩ := escape_unifyLineEnds hescape
            rw [hkept]
            obtain ⟨⟨body', width'⟩, hbody, heq⟩ := map_eq_ok_iff.mp h
            cases heq
            obtain ⟨hread, hmore⟩ := hrest (by decide) hfirm hbody
            exact ⟨map_eq_ok_iff.mpr ⟨_, hread, rfl⟩, hmore⟩
        · next hbackslash =>
          split at h
          · cases h
          · next hcontrol =>
            have hreturn : c ≠ '\r' := by
              rintro rfl
              exact hcontrol (by decide)
            rw [unifyLineEnds_cons hreturn, textBody, if_neg hquote, if_neg hbackslash,
              if_neg hcontrol]
            obtain ⟨⟨body', width'⟩, hbody, heq⟩ := map_eq_ok_iff.mp h
            cases heq
            obtain ⟨hread, hmore⟩ := hrest hreturn (isFirm_zero _) hbody
            exact ⟨map_eq_ok_iff.mpr ⟨_, hread, rfl⟩, hmore⟩

/-! ## §3 Literals -/

/-- A literal that is a word is known by the characters of the word. -/
theorem exists_word_of_word? {p : Datum × Nat} (h : word? cs = some p) :
    ∃ word rest, cs = word ++ rest ∧ '\r' ∉ word ∧ '\n' ∉ word ∧ word.length = p.2 ∧
      ∀ more, word? (word ++ more) = some p := by
  unfold word? at h
  split at h <;> cases h
  · exact ⟨"null".toList, _, rfl, by decide, by decide, rfl, fun _ => rfl⟩
  · exact ⟨"true".toList, _, rfl, by decide, by decide, rfl, fun _ => rfl⟩
  · exact ⟨"false".toList, _, rfl, by decide, by decide, rfl, fun _ => rfl⟩
  · exact ⟨"NaN".toList, _, rfl, by decide, by decide, rfl, fun _ => rfl⟩
  · exact ⟨"Infinity".toList, _, rfl, by decide, by decide, rfl, fun _ => rfl⟩
  · exact ⟨"-Infinity".toList, _, rfl, by decide, by decide, rfl, fun _ => rfl⟩

theorem isFirm_of_word? {d : Datum} (h : word? cs = some (d, width)) : IsFirm width cs := by
  obtain ⟨word, rest, rfl, hreturn, -, rfl, -⟩ := exists_word_of_word? h
  rwa [IsFirm, List.take_left]

theorem word?_unifyLineEnds (cs : List Char) : word? (unifyLineEnds cs) = word? cs := by
  refine Option.ext fun p => ⟨fun h => ?_, fun h => ?_⟩
  · obtain ⟨word, rest, hunified, -, hfeed, -, hword⟩ := exists_word_of_word? h
    obtain ⟨before, rfl, -⟩ := eq_append_of_unifyLineEnds word hfeed hunified
    exact hword before
  · obtain ⟨word, rest, rfl, hreturn, -, -, hword⟩ := exists_word_of_word? h
    rw [unifyLineEnds_append word rest hreturn]
    exact hword _

theorem wholeDigits_unifyLineEnds (cs : List Char) :
    wholeDigits (unifyLineEnds cs) = wholeDigits cs := by
  conv_rhs => unfold wholeDigits
  split
  · rw [unifyLineEnds_cons (by decide), wholeDigits]
  · next hzero =>
    rw [wholeDigits, takeWhile_unifyLineEnds (by decide) (by decide)]
    exact not_unifyLineEnds_eq_cons (by decide) hzero

theorem isFirm_wholeDigits (cs : List Char) : IsFirm (wholeDigits cs).length cs := by
  unfold wholeDigits
  split
  · exact isFirm_succ.mpr ⟨by decide, isFirm_zero _⟩
  · exact isFirm_takeWhile (by decide) cs

theorem fractionDigits_unifyLineEnds (cs : List Char) :
    fractionDigits (unifyLineEnds cs) = fractionDigits cs := by
  conv_rhs => unfold fractionDigits
  split
  · rw [unifyLineEnds_cons (by decide), fractionDigits,
      takeWhile_unifyLineEnds (by decide) (by decide)]
  · next hpoint =>
    rw [fractionDigits]
    exact not_unifyLineEnds_eq_cons (by decide) hpoint

/-- A fraction and its point are firm. -/
theorem isFirm_fractionDigits (cs : List Char) :
    IsFirm (if (fractionDigits cs).isEmpty then 0 else (fractionDigits cs).length + 1) cs := by
  split
  · exact isFirm_zero cs
  · next hfraction =>
    unfold fractionDigits at hfraction ⊢
    split at hfraction
    · exact isFirm_succ.mpr ⟨by decide, isFirm_takeWhile (by decide) _⟩
    · exact absurd rfl hfraction

theorem unsignedExponent?_unifyLineEnds (cs : List Char) :
    unsignedExponent? (unifyLineEnds cs) = unsignedExponent? cs := by
  rw [unsignedExponent?, takeWhile_unifyLineEnds (by decide) (by decide), unsignedExponent?]

theorem isFirm_of_unsignedExponent? (h : unsignedExponent? cs = some (n, width)) :
    IsFirm width cs := by
  simp only [unsignedExponent?] at h
  split at h
  · cases h
  · cases h
    exact isFirm_takeWhile (by decide) cs

theorem signedExponent?_unifyLineEnds (cs : List Char) :
    signedExponent? (unifyLineEnds cs) = signedExponent? cs := by
  conv_rhs => unfold signedExponent?
  split
  · rw [unifyLineEnds_cons (by decide), signedExponent?, unsignedExponent?_unifyLineEnds]
  · rw [unifyLineEnds_cons (by decide), signedExponent?, unsignedExponent?_unifyLineEnds]
  · next hminus hplus =>
    rw [signedExponent?, unsignedExponent?_unifyLineEnds]
    · exact not_unifyLineEnds_eq_cons (by decide) hminus
    · exact not_unifyLineEnds_eq_cons (by decide) hplus

theorem isFirm_of_signedExponent? {e : Int} (h : signedExponent? cs = some (e, width)) :
    IsFirm width cs := by
  unfold signedExponent? at h
  split at h
  all_goals
    obtain ⟨⟨k, digits⟩, hdigits, heq⟩ := Option.map_eq_some_iff.mp h
    cases heq
  · exact isFirm_succ.mpr ⟨by decide, isFirm_of_unsignedExponent? hdigits⟩
  · exact isFirm_succ.mpr ⟨by decide, isFirm_of_unsignedExponent? hdigits⟩
  · exact isFirm_of_unsignedExponent? hdigits

theorem exponent?_unifyLineEnds (cs : List Char) :
    exponent? (unifyLineEnds cs) = exponent? cs := by
  cases cs with
  | nil => rfl
  | cons c rest =>
    obtain ⟨c', rest', hcons, ⟨rfl, rfl⟩ | ⟨rfl, rfl⟩⟩ := exists_unifyLineEnds_cons c rest
    · rw [hcons, exponent?, exponent?, signedExponent?_unifyLineEnds]
    · rw [hcons]
      rfl

theorem isFirm_of_exponent? {e : Int} (h : exponent? cs = some (e, width)) : IsFirm width cs := by
  unfold exponent? at h
  split at h
  · split at h
    · next c rest hletter =>
      obtain ⟨⟨k, digits⟩, hdigits, heq⟩ := Option.map_eq_some_iff.mp h
      cases heq
      refine isFirm_succ.mpr ⟨?_, isFirm_of_signedExponent? hdigits⟩
      rintro rfl
      cases hletter
    · cases h
  · cases h

theorem unsignedNumber?_unifyLineEnds (negative : Bool) (cs : List Char) :
    unsignedNumber? negative (unifyLineEnds cs) = unsignedNumber? negative cs := by
  simp only [unsignedNumber?, wholeDigits_unifyLineEnds,
    drop_unifyLineEnds (isFirm_wholeDigits cs), fractionDigits_unifyLineEnds,
    drop_unifyLineEnds (isFirm_fractionDigits _), exponent?_unifyLineEnds]

theorem isFirm_of_unsignedNumber? {negative : Bool} {t : Token}
    (h : unsignedNumber? negative cs = some (t, width)) : IsFirm width cs := by
  have hwhole := isFirm_wholeDigits cs
  have hpoint := isFirm_fractionDigits (cs.drop (wholeDigits cs).length)
  simp only [unsignedNumber?] at h
  split at h
  · cases h
  · split at h
    · next hexponent =>
      cases h
      rw [Nat.add_assoc, isFirm_add, isFirm_add]
      exact ⟨hwhole, hpoint, isFirm_of_exponent? hexponent⟩
    · split at h
      · cases h
        exact hwhole
      · next hfraction =>
        cases h
        rw [if_neg hfraction] at hpoint
        exact isFirm_add.mpr ⟨hwhole, hpoint⟩

theorem number?_unifyLineEnds (cs : List Char) : number? (unifyLineEnds cs) = number? cs := by
  conv_rhs => unfold number?
  split
  · rw [unifyLineEnds_cons (by decide), number?, unsignedNumber?_unifyLineEnds]
  · next hminus =>
    rw [number?, unsignedNumber?_unifyLineEnds]
    exact not_unifyLineEnds_eq_cons (by decide) hminus

theorem isFirm_of_number? {t : Token} (h : number? cs = some (t, width)) : IsFirm width cs := by
  unfold number? at h
  split at h
  · obtain ⟨⟨k, digits⟩, hdigits, heq⟩ := Option.map_eq_some_iff.mp h
    cases heq
    exact isFirm_succ.mpr ⟨by decide, isFirm_of_unsignedNumber? hdigits⟩
  · exact isFirm_of_unsignedNumber? h

/-- **Literals.** Words and numbers are firm. -/
theorem literalToken_unifyLineEnds (cs : List Char) :
    literalToken (unifyLineEnds cs) = literalToken cs := by
  simp only [literalToken, word?_unifyLineEnds, number?_unifyLineEnds]

theorem isFirm_literalToken (h : c ≠ '\r') (rest : List Char) :
    IsFirm (literalToken (c :: rest)).2 (c :: rest) := by
  unfold literalToken
  split
  · next hword => exact isFirm_of_word? hword
  · cases hnumber : number? (c :: rest) with
    | none => exact isFirm_succ.mpr ⟨h, isFirm_zero rest⟩
    | some found => exact isFirm_of_number? hnumber

/-! ## §4 Rows -/

theorem textToken_unifyLineEnds (h : (textToken cs).1.isSound = true) :
    textToken (unifyLineEnds cs) = textToken cs ∧ IsFirm ((textToken cs).2 - 1) cs := by
  unfold textToken at h ⊢
  cases hbody : textBody 0 1 cs with
  | error e =>
    rw [hbody] at h
    cases h
  | ok found =>
    obtain ⟨hkept, -, hfirm⟩ := textBody_unifyLineEnds (isFirm_zero cs) hbody
    rw [hkept]
    exact ⟨rfl, hfirm⟩

/-- **Tokens.** A sound token is cut from firm characters, and is the same where line ends
are rewritten. -/
theorem firstToken_unifyLineEnds (hc : c ≠ '\r') (h : (firstToken c rest).1.isSound = true) :
    firstToken c (unifyLineEnds rest) = firstToken c rest ∧
      IsFirm ((firstToken c rest).2 - 1) rest := by
  unfold firstToken at h ⊢
  split
  case h_7 => exact textToken_unifyLineEnds h
  case h_8 =>
    have hfirm := isFirm_literalToken hc rest
    rw [← unifyLineEnds_cons hc, literalToken_unifyLineEnds]
    refine ⟨rfl, ?_⟩
    cases hwidth : (literalToken (c :: rest)).2 with
    | zero => exact isFirm_zero rest
    | succ width =>
      rw [hwidth, isFirm_succ] at hfirm
      exact hfirm.2
  all_goals exact ⟨rfl, isFirm_zero rest⟩

/-- **Rows.** Sound tokens of a text are those of the text with other line ends. By
induction on the text, of which some characters may belong to the last token. -/
theorem scan_unifyLineEnds {offset offset' : Nat} (hskip : IsFirm skip cs)
    (h : ∀ placed ∈ scan skip offset cs, placed.token.isSound = true) :
    (scan skip offset' (unifyLineEnds cs)).map Placed.token
      = (scan skip offset cs).map Placed.token := by
  induction cs generalizing skip offset offset' with
  | nil => cases skip <;> rfl
  | cons c rest ih =>
    cases skip with
    | succ skip =>
      rw [isFirm_succ] at hskip
      rw [unifyLineEnds_cons hskip.1]
      exact ih hskip.2 h
    | zero =>
      by_cases hreturn : c = '\r'
      · subst hreturn
        obtain hfeed | ⟨more, rfl, hfeed⟩ := unifyLineEnds_return rest
        · rw [hfeed]
          exact ih (isFirm_zero rest) h
        · rw [hfeed]
          exact ih (isFirm_zero _) h
      · rw [unifyLineEnds_cons hreturn, scan, scan]
        rw [scan] at h
        split
        · next hblank =>
          rw [if_pos hblank] at h
          exact ih (isFirm_zero rest) h
        · next hblank =>
          rw [if_neg hblank, List.forall_mem_cons] at h
          obtain ⟨hkept, hfirm⟩ := firstToken_unifyLineEnds hreturn h.1
          rw [hkept, List.map_cons, List.map_cons, ih hfirm h.2]

/-- **Values.** What is read of a text is read with other line ends too. -/
theorem readChars_unifyLineEnds [Nesting] {d : Datum} (h : readChars cs = .ok d) :
    readChars (unifyLineEnds cs) = .ok d := by
  unfold readChars at h ⊢
  split at h
  · cases h
  · next hmark =>
    have hkept : ¬ (unifyLineEnds cs).head? = some '\ufeff' := by
      intro hhead
      obtain ⟨rest, hrest⟩ := List.head?_eq_some_iff.mp hhead
      obtain ⟨before, rfl, -⟩ := eq_cons_of_unifyLineEnds (by decide) hrest
      exact hmark rfl
    rw [if_neg hkept]
    exact readTokens_congr (scan_unifyLineEnds (isFirm_zero cs) (isSound_of_readTokens h)).symm h

end Json

end GraphShapes
