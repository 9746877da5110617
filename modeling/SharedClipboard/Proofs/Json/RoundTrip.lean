import SharedClipboard.Json.Printer
import SharedClipboard.Json.Reader
import Mathlib.Tactic.IntervalCases

/-!
# Reading what was printed

**Theorem (`record_textsUnder`).** An object with a list of texts under one key is read back by
whoever knows how to read the list under that key (`array_listText`), and nothing is left over.

Each lemma says of one reader what it gives and what it leaves, whatever follows; `bind_ok` puts
them together. Within quotes every character is either an escape, which is read as the bytes of the
character, or stands there with its own bytes, none of which ends the text, starts an escape or is a
control byte (`written_cases`).
-/

namespace SharedClipboard

namespace Text

theorem utf8_append (s t : String) : utf8 (s ++ t) = utf8 s ++ utf8 t := by
  simp [utf8, String.toByteArray_append]

theorem utf8_ofList (cs : List Char) :
    utf8 (String.ofList cs) = cs.flatMap String.utf8EncodeChar := by
  simp [utf8, List.utf8Encode]

/-- A byte of a character is the character itself or lies above the ASCII range. -/
theorem mem_utf8EncodeChar {c : Char} {b : UInt8} (h : b ∈ String.utf8EncodeChar c) :
    b.toNat = c.toNat ∨ 0x80 ≤ b.toNat := by
  show b.toNat = c.val.toNat ∨ _
  simp only [String.utf8EncodeChar] at h
  split at h
  · simp only [List.mem_singleton] at h
    subst h
    simp only [UInt8.toNat_ofNat']
    omega
  · split at h
    · simp only [List.mem_cons, List.not_mem_nil, or_false] at h
      obtain rfl | rfl := h <;> simp only [UInt8.toNat_ofNat'] <;> omega
    · split at h
      · simp only [List.mem_cons, List.not_mem_nil, or_false] at h
        obtain rfl | rfl | rfl := h <;> simp only [UInt8.toNat_ofNat'] <;> omega
      · simp only [List.mem_cons, List.not_mem_nil, or_false] at h
        obtain rfl | rfl | rfl | rfl := h <;> simp only [UInt8.toNat_ofNat'] <;> omega

end Text

namespace Json

/-- The bytes of some characters within quotes. -/
def written (cs : List Char) : Bytes := (cs.flatMap escapeChar).flatMap String.utf8EncodeChar

theorem written_cons (c : Char) (cs : List Char) :
    written (c :: cs) = written [c] ++ written cs := by
  simp [written]

theorem utf8_quote (s : String) : Text.utf8 (quote s) = 0x22 :: (written s.toList ++ [0x22]) := by
  rw [quote, Text.utf8_ofList, List.flatMap_append, List.flatMap_cons]
  rfl

namespace Reader

variable {α β : Type}

theorem bind_ok {r : Reader α} {f : α → Reader β} {b b' : Bytes} {a : α}
    (h : r b = .ok (a, b')) : (r >>= f) b = f a b' := by
  show (r b >>= fun p => f p.1 p.2) = _
  rw [h]
  rfl

theorem run_ok {r : Reader α} {b : Bytes} {a : α} (h : r b = .ok (a, [])) : r.run b = .ok a := by
  show (r b >>= fun p => if (p.2.dropWhile isSpace).isEmpty then pure p.1 else .error .notJson) = _
  rw [h]
  rfl

theorem drop_cons (b : UInt8) (rest : Bytes) : drop (b :: rest) = .ok ((), rest) := rfl

theorem get_eq (b : Bytes) : (get : Reader Bytes) b = .ok (b, b) := rfl

/-! ## Texts -/

theorem hexValue?_hexDigit {n : Nat} (h : n < 16) :
    ∃ b, String.utf8EncodeChar (hexDigit n) = [b] ∧ hexValue? b = some n := by
  interval_cases n <;> exact ⟨_, rfl, rfl⟩

/-- A one-letter escape. -/
theorem escape_letter {x y : UInt8} (hx : x ≠ 0x75) (h : escaped? x = some y) (rest : Bytes) :
    escape (x :: rest) = .ok ([y], rest) := by
  show (if x = 0x75 then _ else _ : Reader Bytes) rest = _
  rw [if_neg hx]
  simp only [h]
  rfl

/-- The numeric escape of a control character. -/
theorem escape_control {c : Char} (h : c.toNat < 0x20) {a b : UInt8}
    (ha : hexValue? a = some (c.toNat / 16)) (hb : hexValue? b = some (c.toNat % 16))
    (rest : Bytes) :
    escape (0x75 :: 0x30 :: 0x30 :: a :: b :: rest) = .ok (String.utf8EncodeChar c, rest) := by
  have hzero : hexValue? 0x30 = some 0 := rfl
  -- Control characters are below 32, so the first two digits are zeros.
  have hfour : fourHex (0x30 :: 0x30 :: a :: b :: rest) = .ok (c.toNat, rest) := by
    rw [fourHex, bind_ok (get_eq _)]
    simp only [hzero, ha, hb]
    show Except.ok (_, rest) = _
    simp only [Except.ok.injEq, Prod.mk.injEq, and_true]
    omega
  have hchar : unicodeEscape (0x30 :: 0x30 :: a :: b :: rest) = .ok (c, rest) := by
    rw [unicodeEscape, bind_ok hfour, if_neg (by omega), if_pos (by omega), Char.ofNat_toNat]
    rfl
  show (unicodeEscape >>= fun c => pure (Text.utf8 (String.singleton c)))
    (0x30 :: 0x30 :: a :: b :: rest) = _
  rw [bind_ok hchar, String.singleton_eq_ofList, Text.utf8_ofList, List.flatMap_singleton]
  rfl

/-- A character within quotes is an escape that stands for its bytes, or its bytes, none of which
means anything else there. -/
theorem written_cases (c : Char) :
    (∃ es, written [c] = 0x5C :: es ∧
      ∀ rest, escape (es ++ rest) = .ok (String.utf8EncodeChar c, rest)) ∨
    written [c] = String.utf8EncodeChar c ∧
      ∀ b ∈ String.utf8EncodeChar c, b ≠ 0x22 ∧ b ≠ 0x5C ∧ ¬ b < 0x20 := by
  have hwritten : written [c] = (escapeChar c).flatMap String.utf8EncodeChar := by
    rw [written, List.flatMap_singleton]
  rw [hwritten]
  unfold escapeChar
  -- In the order of `escapeChar`: seven letters, the other control characters, and all the rest.
  split_ifs with hquote hslash hback hfeed hline hreturn htab hcontrol
  · subst hquote
    exact .inl ⟨[0x22], rfl, escape_letter (by decide) rfl⟩
  · subst hslash
    exact .inl ⟨[0x5C], rfl, escape_letter (by decide) rfl⟩
  · subst hback
    exact .inl ⟨[0x62], rfl, escape_letter (by decide) rfl⟩
  · subst hfeed
    exact .inl ⟨[0x66], rfl, escape_letter (by decide) rfl⟩
  · subst hline
    exact .inl ⟨[0x6E], rfl, escape_letter (by decide) rfl⟩
  · subst hreturn
    exact .inl ⟨[0x72], rfl, escape_letter (by decide) rfl⟩
  · subst htab
    exact .inl ⟨[0x74], rfl, escape_letter (by decide) rfl⟩
  · obtain ⟨a, ha, hava⟩ := hexValue?_hexDigit (n := c.toNat / 16) (by omega)
    obtain ⟨b, hb, hbva⟩ := hexValue?_hexDigit (n := c.toNat % 16) (by omega)
    refine .inl ⟨[0x75, 0x30, 0x30, a, b], ?_, escape_control hcontrol hava hbva⟩
    simp only [List.flatMap_cons, List.flatMap_nil, ha, hb]
    rfl
  · refine .inr ⟨List.flatMap_singleton _ _, fun b hb => ?_⟩
    have hbyte := Text.mem_utf8EncodeChar hb
    refine ⟨?_, ?_, fun hlt => ?_⟩
    · rintro rfl
      exact hbyte.elim (fun h => hquote (Char.toNat_inj.1 h.symm)) (by decide)
    · rintro rfl
      exact hbyte.elim (fun h => hslash (Char.toNat_inj.1 h.symm)) (by decide)
    · have hlt : b.toNat < 0x20 := UInt8.lt_iff_toNat_lt.1 hlt
      omega

/-- Bytes that mean nothing else within quotes are read as they are. -/
theorem quotedFrom_plain {unescape : Reader Bytes} {bs : Bytes}
    (h : ∀ b ∈ bs, b ≠ 0x22 ∧ b ≠ 0x5C ∧ ¬ b < 0x20) (fuel : Nat) (got rest : Bytes) :
    quotedFrom unescape (bs.length + fuel) got (bs ++ rest) =
      quotedFrom unescape fuel (bs.reverse ++ got) rest := by
  induction bs generalizing got with
  | nil => simp
  | cons b bs ih =>
    obtain ⟨hquote, hslash, hcontrol⟩ := h b List.mem_cons_self
    have hstep : quotedFrom unescape (bs.length + fuel + 1) got (b :: bs ++ rest) =
        quotedFrom unescape (bs.length + fuel) (b :: got) (bs ++ rest) := by
      show (if b = 0x22 then _ else if b = 0x5C then _ else if b < 0x20 then _ else _ :
        Reader Bytes) _ = _
      rw [if_neg hquote, if_neg hslash, if_neg hcontrol]
      rfl
    rw [List.length_cons, Nat.add_right_comm, hstep,
      ih (fun b hb => h b (List.mem_cons_of_mem _ hb)) (b :: got)]
    simp

/-- An escape is read as the bytes that it stands for. -/
theorem quotedFrom_escape {es bs : Bytes} (fuel : Nat) (got rest : Bytes)
    (h : escape (es ++ rest) = .ok (bs, rest)) :
    quotedFrom escape (fuel + 1) got (0x5C :: es ++ rest) =
      quotedFrom escape fuel (bs.reverse ++ got) rest := by
  show (escape >>= fun bs => quotedFrom escape fuel (bs.reverse ++ got)) (es ++ rest) = _
  exact bind_ok h

/-- A text that was written is read up to its closing quote. -/
theorem quotedFrom_written (cs : List Char) {fuel : Nat} (hfuel : (written cs).length < fuel)
    (got rest : Bytes) :
    quotedFrom escape fuel got (written cs ++ 0x22 :: rest) =
      .ok (got.reverse ++ cs.flatMap String.utf8EncodeChar, rest) := by
  -- The fuel bounds the bytes that are left, of which each step takes one at least.
  induction cs generalizing fuel got with
  | nil =>
    obtain ⟨fuel, rfl⟩ := Nat.exists_eq_add_one_of_ne_zero (Nat.ne_of_gt hfuel)
    show Except.ok (got.reverse, rest) = _
    simp
  | cons c cs ih =>
    rw [written_cons, List.length_append] at hfuel
    rw [written_cons, List.append_assoc, List.flatMap_cons]
    obtain ⟨es, hwritten, hescape⟩ | ⟨hwritten, hplain⟩ := written_cases c
    · rw [hwritten] at hfuel ⊢
      obtain ⟨fuel, rfl⟩ : ∃ k, fuel = k + 1 := ⟨fuel - 1, by omega⟩
      rw [quotedFrom_escape fuel got _ (hescape _), ih (by rw [List.length_cons] at hfuel; omega)]
      simp
    · rw [hwritten] at hfuel ⊢
      obtain ⟨fuel, rfl⟩ : ∃ k, fuel = (String.utf8EncodeChar c).length + k :=
        ⟨fuel - (String.utf8EncodeChar c).length, by omega⟩
      rw [quotedFrom_plain hplain, ih (by omega)]
      simp

/-- A text is read back, after its opening quote. -/
theorem quoted_written (s : String) (rest : Bytes) :
    quoted (written s.toList ++ 0x22 :: rest) = .ok (s, rest) := by
  have hbytes : quotedFrom escape ((written s.toList ++ 0x22 :: rest).length + 1) []
      (written s.toList ++ 0x22 :: rest) = .ok (Text.utf8 s, rest) := by
    have hfuel : (written s.toList).length < (written s.toList ++ 0x22 :: rest).length + 1 := by
      rw [List.length_append]
      omega
    rw [quotedFrom_written s.toList hfuel]
    conv_rhs => rw [← String.ofList_toList (s := s), Text.utf8_ofList]
    rfl
  rw [quoted, bind_ok (get_eq _), bind_ok hbytes, Text.ofUtf8?_utf8]
  rfl

/-! ## Space -/

theorem peekPastSpace_append {w : Bytes} (hw : w.all isSpace) {b : UInt8}
    (hb : isSpace b = false) (rest : Bytes) :
    peekPastSpace (w ++ b :: rest) = .ok (some b, b :: rest) := by
  have hdrop : (w ++ b :: rest).dropWhile isSpace = b :: rest := by
    rw [List.dropWhile_append_of_pos (List.all_eq_true.1 hw), List.dropWhile_cons_of_neg]
    simp [hb]
  show Except.ok (((w ++ b :: rest).dropWhile isSpace).head?,
    (w ++ b :: rest).dropWhile isSpace) = _
  rw [hdrop]
  rfl

theorem start_append {w : Bytes} (hw : w.all isSpace) {b : UInt8} (hb : isSpace b = false)
    (rest : Bytes) : start (w ++ b :: rest) = .ok (b, b :: rest) := by
  rw [start, bind_ok (peekPastSpace_append hw hb rest)]
  rfl

theorem start_cons {b : UInt8} (hb : isSpace b = false) (rest : Bytes) :
    start (b :: rest) = .ok (b, b :: rest) := start_append (w := []) rfl hb rest

/-- A text in quotes is read back, whatever space is before it. -/
theorem string_quote {w : Bytes} (hw : w.all isSpace) (s : String) (rest : Bytes) :
    string (w ++ (Text.utf8 (quote s) ++ rest)) = .ok (s, rest) := by
  rw [utf8_quote, List.cons_append, List.append_assoc, string,
    bind_ok (start_append hw rfl _), if_pos rfl]
  exact quoted_written s rest

/-! ## Lists of texts -/

theorem moreElements_end {w : Bytes} (hw : w.all isSpace) (first : Bool) (rest : Bytes) :
    moreElements first (w ++ 0x5D :: rest) = .ok (false, 0x5D :: rest) := by
  rw [moreElements, bind_ok (peekPastSpace_append hw rfl rest)]
  rfl

theorem moreElements_first {w : Bytes} (hw : w.all isSpace) (rest : Bytes) :
    moreElements true (w ++ 0x22 :: rest) = .ok (true, 0x22 :: rest) := by
  rw [moreElements, bind_ok (peekPastSpace_append hw rfl rest)]
  rfl

theorem moreElements_comma {w : Bytes} (hw : w.all isSpace) (rest : Bytes) :
    moreElements false (0x2C :: (w ++ 0x22 :: rest)) = .ok (true, 0x22 :: rest) := by
  have hcomma : peekPastSpace (0x2C :: (w ++ 0x22 :: rest)) =
      .ok (some 0x2C, 0x2C :: (w ++ 0x22 :: rest)) :=
    peekPastSpace_append (w := []) rfl rfl _
  rw [moreElements, bind_ok hcomma]
  show (drop >>= _) _ = _
  rw [bind_ok (drop_cons _ _), bind_ok (peekPastSpace_append hw rfl rest)]
  rfl

/-- Further texts of a list, each after a comma and some space. -/
def further (w : Bytes) (texts : List String) : Bytes :=
  texts.flatMap fun s => 0x2C :: (w ++ Text.utf8 (quote s))

/-- Reads a text of a list on top of those before it. -/
def textOnto (xs : List String) : Reader (List String) := do return (← string) :: xs

theorem textOnto_quote (xs : List String) (s : String) (rest : Bytes) :
    textOnto xs (Text.utf8 (quote s) ++ rest) = .ok (s :: xs, rest) := by
  have hstring : string (Text.utf8 (quote s) ++ rest) = .ok (s, rest) :=
    string_quote (w := []) rfl s rest
  rw [textOnto, bind_ok hstring]
  rfl

theorem elementsFrom_further {w v : Bytes} (hw : w.all isSpace) (hv : v.all isSpace)
    (texts : List String) {fuel : Nat} (hfuel : texts.length < fuel) (xs : List String)
    (rest : Bytes) :
    elementsFrom textOnto fuel false xs (further w texts ++ (v ++ 0x5D :: rest)) =
      .ok (texts.reverse ++ xs, 0x5D :: rest) := by
  induction texts generalizing fuel xs with
  | nil =>
    obtain ⟨fuel, rfl⟩ := Nat.exists_eq_add_one_of_ne_zero (Nat.ne_of_gt hfuel)
    rw [elementsFrom]
    exact bind_ok (moreElements_end hv false rest)
  | cons s texts ih =>
    obtain ⟨fuel, rfl⟩ := Nat.exists_eq_add_one_of_ne_zero (Nat.ne_of_gt (Nat.zero_lt_of_lt hfuel))
    have hmore : ∀ rest, moreElements false (0x2C :: (w ++ (Text.utf8 (quote s) ++ rest))) =
        .ok (true, Text.utf8 (quote s) ++ rest) := by
      intro rest
      rw [utf8_quote]
      exact moreElements_comma hw _
    rw [further, List.flatMap_cons, ← further, List.append_assoc, List.cons_append,
      List.append_assoc, elementsFrom, bind_ok (hmore _)]
    show (textOnto xs >>= elementsFrom textOnto fuel false) _ = _
    rw [bind_ok (textOnto_quote xs s _), ih (Nat.lt_of_succ_lt_succ hfuel)]
    simp

theorem length_le_further (w : Bytes) (texts : List String) :
    texts.length ≤ (further w texts).length := by
  induction texts with
  | nil => simp [further]
  | cons s texts ih =>
    rw [further, List.flatMap_cons, ← further]
    simp only [List.length_append, List.length_cons]
    omega

/-- The elements of a list whose first text is at the front. -/
theorem elementsFrom_texts {w v u : Bytes} (hw : w.all isSpace) (hv : v.all isSpace)
    (hu : u.all isSpace) (s : String) (texts : List String) (rest : Bytes) {fuel : Nat}
    (hfuel : texts.length + 1 < fuel) :
    elementsFrom textOnto fuel true []
      (w ++ (Text.utf8 (quote s) ++ (further v texts ++ (u ++ 0x5D :: rest)))) =
      .ok (texts.reverse ++ [s], 0x5D :: rest) := by
  obtain ⟨fuel, rfl⟩ := Nat.exists_eq_add_one_of_ne_zero (Nat.ne_of_gt (Nat.zero_lt_of_lt hfuel))
  have hmore : ∀ rest, moreElements true (w ++ (Text.utf8 (quote s) ++ rest)) =
      .ok (true, Text.utf8 (quote s) ++ rest) := by
    intro rest
    rw [utf8_quote]
    exact moreElements_first hw _
  rw [elementsFrom, bind_ok (hmore _)]
  show (textOnto [] >>= elementsFrom textOnto fuel false) _ = _
  rw [bind_ok (textOnto_quote [] s _),
    elementsFrom_further hv hu texts (Nat.lt_of_succ_lt_succ hfuel)]

/-- A list is read to its end once its elements are. -/
theorem array_string {w b rest : Bytes} (hw : w.all isSpace) {xs : List String}
    (h : elementsFrom textOnto (b.length + 1) true [] b = .ok (xs, 0x5D :: rest)) :
    array string (w ++ 0x5B :: b) = .ok (xs.reverse, rest) := by
  have hend : endOfList (0x5D :: rest) = .ok ((), rest) :=
    bind_ok (peekPastSpace_append (w := []) rfl rfl rest)
  rw [array, bind_ok (start_append hw rfl b), if_pos rfl]
  show (elementsFrom textOnto (b.length + 1) true [] >>= fun xs => do
    endOfList
    return xs.reverse) b = _
  rw [bind_ok h, bind_ok hend]
  rfl

/-! ## A list under a key -/

/-- A list of texts, one on each line. -/
def listText (texts : List String) : String :=
  if texts.isEmpty then "[]"
  else "[\n    " ++ ",\n    ".intercalate (texts.map quote) ++ "\n  ]"

theorem textsUnder_eq (key : String) (texts : List String) :
    textsUnder key texts = "\x7b\n  " ++ quote key ++ ": " ++ listText texts ++ "\n\x7d" := rfl

/-- The end of a line and the indentation of the next one. -/
def newline (n : Nat) : Bytes := 0x0A :: List.replicate n 0x20

theorem isSpace_newline (n : Nat) : (newline n).all isSpace := by
  simp [newline, isSpace]

theorem length_newline (n : Nat) : (newline n).length = n + 1 := by
  simp [newline]

theorem utf8_intercalate (s : String) (texts : List String) :
    Text.utf8 (",\n    ".intercalate ((s :: texts).map quote)) =
      Text.utf8 (quote s) ++ further (newline 4) texts := by
  induction texts generalizing s with
  | nil => simp [further]
  | cons t texts ih =>
    have hcomma : Text.utf8 ",\n    " = 0x2C :: newline 4 := by decide
    rw [List.map_cons, List.map_cons, String.intercalate_cons_cons, ← List.map_cons,
      Text.utf8_append, Text.utf8_append, ih t, hcomma, further, further, List.flatMap_cons]
    simp

/-- A list of texts is read back. -/
theorem array_listText (texts : List String) (rest : Bytes) :
    array string (0x20 :: (Text.utf8 (listText texts) ++ rest)) = .ok (texts, rest) := by
  cases texts with
  | nil =>
    have hempty : Text.utf8 (listText []) = [0x5B, 0x5D] := by decide
    rw [hempty]
    exact array_string (w := [0x20]) rfl (bind_ok (moreElements_end (w := []) rfl true rest))
  | cons s texts =>
    have hopen : Text.utf8 "[\n    " = 0x5B :: newline 4 := by decide
    have hclose : Text.utf8 "\n  ]" = newline 2 ++ [0x5D] := by decide
    have hlist : Text.utf8 (listText (s :: texts)) ++ rest =
        0x5B :: (newline 4 ++ (Text.utf8 (quote s) ++
          (further (newline 4) texts ++ (newline 2 ++ 0x5D :: rest)))) := by
      rw [listText, if_neg (by simp), Text.utf8_append, Text.utf8_append, utf8_intercalate, hopen,
        hclose]
      simp
    have hlength := length_le_further (newline 4) texts
    rw [hlist]
    refine (array_string (w := [0x20]) rfl (elementsFrom_texts (isSpace_newline 4)
      (isSpace_newline 4) (isSpace_newline 2) s texts rest ?_)).trans ?_
    · simp only [List.length_append, length_newline]
      omega
    · simp

theorem moreKeys_first {w : Bytes} (hw : w.all isSpace) (rest : Bytes) :
    moreKeys true (w ++ 0x22 :: rest) = .ok (true, 0x22 :: rest) := by
  rw [moreKeys, bind_ok (peekPastSpace_append hw rfl rest)]
  rfl

theorem moreKeys_end {w : Bytes} (hw : w.all isSpace) (first : Bool) (rest : Bytes) :
    moreKeys first (w ++ 0x7D :: rest) = .ok (false, 0x7D :: rest) := by
  rw [moreKeys, bind_ok (peekPastSpace_append hw rfl rest)]
  rfl

theorem colon_cons (rest : Bytes) : colon (0x3A :: rest) = .ok ((), rest) :=
  bind_ok (peekPastSpace_append (w := []) rfl rfl rest)

variable {σ : Type} {init s : σ} {field : σ → String → Reader σ} {key : String}

/-- The one field of an object is read. -/
theorem fieldsFrom_single {w v value : Bytes} (hw : w.all isSpace) (hv : v.all isSpace)
    (rest : Bytes)
    (hfield : field init key (value ++ (v ++ 0x7D :: rest)) = .ok (s, v ++ 0x7D :: rest))
    (fuel : Nat) :
    fieldsFrom field (fuel + 2) true init
      (w ++ 0x22 :: (written key.toList ++ 0x22 :: (value ++ (v ++ 0x7D :: rest)))) =
      .ok (s, 0x7D :: rest) := by
  rw [fieldsFrom, bind_ok (moreKeys_first hw _)]
  show (drop >>= fun _ => quoted >>= fun key => field init key >>=
    fieldsFrom field (fuel + 1) false) _ = _
  rw [bind_ok (drop_cons _ _), bind_ok (quoted_written key _), bind_ok hfield, fieldsFrom,
    bind_ok (moreKeys_end hv false rest)]
  rfl

/-- An object with one key is read if its field is. -/
theorem record_textsUnder {finish : σ → Reader α} {ofList : Reader α} {texts : List String} {a : α}
    (hfield : ∀ rest, field init key (0x3A :: 0x20 :: (Text.utf8 (listText texts) ++ rest)) =
      .ok (s, rest))
    (hfinish : ∀ b, finish s b = .ok (a, b)) :
    record init field finish ofList (Text.utf8 (textsUnder key texts)) = .ok (a, []) := by
  have hopen : Text.utf8 "\x7b\n  " = 0x7B :: newline 2 := by decide
  have hcolon : Text.utf8 ": " = [0x3A, 0x20] := by decide
  have hclose : Text.utf8 "\n\x7d" = newline 0 ++ [0x7D] := by decide
  have htext : Text.utf8 (textsUnder key texts) = 0x7B :: (newline 2 ++ 0x22 ::
      (written key.toList ++ 0x22 :: (0x3A :: 0x20 :: Text.utf8 (listText texts) ++
        (newline 0 ++ [0x7D])))) := by
    rw [textsUnder_eq]
    simp only [Text.utf8_append, hopen, hcolon, hclose, utf8_quote]
    simp
  have hend : endOfObject [0x7D] = .ok ((), []) := rfl
  rw [htext, record, bind_ok (start_cons rfl _), if_neg (by decide), if_pos rfl,
    bind_ok (drop_cons _ _), bind_ok (get_eq _)]
  refine (bind_ok (fieldsFrom_single (isSpace_newline 2) (isSpace_newline 0) [] (hfield _) _)).trans
    ?_
  rw [bind_ok (hfinish _), bind_ok hend]
  rfl

end Reader

end Json

end SharedClipboard
