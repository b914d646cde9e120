import DocOutline.Json.Printer
import DocOutline.Json.Reader
import Mathlib.Tactic.SplitIfs

/-!
# Reading back printed JSON

A printed value reads back as itself if it is not nested too deep, and otherwise it is refused
(`Json.read?_print`). The layout may be any that puts nothing but blanks between the tokens, and
the numbers of the value have to be natural numbers: other numbers are printed as they were
written, and nothing says that they were written well.

The text of a number ends only where something follows that does not continue it, so the readers
are looked at with a rest behind the value that stops a number (`StopsNumber`). Every call of a
reader lowers its bound. The induction is on the bound, with values, items and members side by
side (`ReadsBack`): each of the three readers calls only readers of a smaller bound. What a reader
gives depends on its room alone, since the part that nests too deep is met before the end.
-/

namespace DocOutline.Json

/-! ## Values of natural numbers -/

mutual

/-- All numbers of the value are natural numbers. -/
def isWhole : Json → Bool
  | .real _ => false
  | .arr items => areWhole items
  | .obj members => membersAreWhole members
  | _ => true

def areWhole : List Json → Bool
  | [] => true
  | item :: items => item.isWhole && areWhole items

def membersAreWhole : List (String × Json) → Bool
  | [] => true
  | (_, value) :: members => value.isWhole && membersAreWhole members

end

/-! ## Strings -/

theorem unit?_hexDigit : ∀ n < 32,
    unit? '0' '0' (hexDigit (n / 16)) (hexDigit (n % 16)) = some n := by
  decide

/-- An escape of one letter reads as the character of that letter. -/
theorem readString?_letter {c letter : Char} (hc : c ≠ 'u') (h : escapeLetter? c = some letter)
    (rest : List Char) :
    readString? ('\\' :: c :: rest) =
      (readString? rest).map fun (s, rest) => (letter :: s, rest) := by
  rw [readString?, h]
  simp [hc]

/-- The escape of a character reads back as the character. -/
theorem readString?_escapeChar (c : Char) (rest : List Char) :
    readString? (escapeChar c ++ rest) =
      (readString? rest).map fun (s, rest) => (c :: s, rest) := by
  unfold escapeChar
  split_ifs with h1 h2 h3 h4 h5 h6 h7 hcontrol
  · rw [h1]; exact readString?_letter (by decide) rfl rest
  · rw [h2]; exact readString?_letter (by decide) rfl rest
  · rw [h3]; exact readString?_letter (by decide) rfl rest
  · rw [h4]; exact readString?_letter (by decide) rfl rest
  · rw [h5]; exact readString?_letter (by decide) rfl rest
  · rw [h6]; exact readString?_letter (by decide) rfl rest
  · rw [h7]; exact readString?_letter (by decide) rfl rest
  · -- a control character without a letter of its own is written by its number
    have hunit := unit?_hexDigit c.toNat hcontrol
    have hfirst : c.toNat < 0xD800 := by omega
    simp only [List.cons_append, List.nil_append, readString?, hunit]
    simp [hfirst, Char.ofNat_toNat]
  · rw [List.cons_append, List.nil_append, readString?]
    · simp [hcontrol, h2]
    · simp [h1]
    · simp [h2]
    · simp [h2]

theorem readString?_escaped (s rest : List Char) :
    readString? (s.flatMap escapeChar ++ '"' :: rest) = some (s, rest) := by
  induction s with
  | nil => simp [readString?]
  | cons c s ih => simp [List.flatMap_cons, readString?_escapeChar, ih]

theorem quote_append (s : String) (rest : List Char) :
    quote s ++ rest = '"' :: (s.toList.flatMap escapeChar ++ '"' :: rest) := by
  simp [quote]

/-! ## Numbers -/

/-- What follows does not continue a number. -/
def StopsNumber (rest : List Char) : Prop :=
  ∀ c ∈ rest.head?, c.isDigit = false ∧ c ≠ '.' ∧ c ≠ 'e' ∧ c ≠ 'E'

theorem stopsNumber_nil : StopsNumber [] := by
  simp [StopsNumber]

theorem stopsNumber_cons {c : Char} {rest : List Char}
    (h : c.isDigit = false ∧ c ≠ '.' ∧ c ≠ 'e' ∧ c ≠ 'E') : StopsNumber (c :: rest) := by
  intro d hd
  obtain rfl : c = d := by simpa using hd
  exact h

/-- Only zero is written with a leading zero. -/
theorem eq_zero_of_toDigits {n : Nat} {cs : List Char} (h : Nat.toDigits 10 n = '0' :: cs) :
    n = 0 := by
  induction n using Nat.strongRecOn generalizing cs with
  | ind n ih =>
    rw [Nat.toDigits_eq_if (by decide)] at h
    split_ifs at h with hsmall
    · have hdigit : ∀ m < 10, m.digitChar = '0' → m = 0 := by decide
      exact hdigit n hsmall (List.cons.inj h).1
    · obtain ⟨c, digits, hdigits⟩ :=
        List.exists_cons_of_ne_nil (Nat.toDigits_ne_nil (n := n / 10) (b := 10))
      rw [hdigits, List.cons_append, List.cons.injEq] at h
      rw [h.1] at hdigits
      have := ih (n / 10) (by omega) hdigits
      omega

theorem spanDigits_append {digits rest : List Char} (hdigits : ∀ c ∈ digits, c.isDigit = true)
    (hrest : StopsNumber rest) : spanDigits (digits ++ rest) = (digits, rest) := by
  rw [spanDigits, List.takeWhile_append_of_pos hdigits, List.dropWhile_append_of_pos hdigits]
  cases rest with
  | nil => simp
  | cons c rest => simp [(hrest c rfl).1]

theorem readWhole?_toDigits (n : Nat) {rest : List Char} (hrest : StopsNumber rest) :
    readWhole? (Nat.toDigits 10 n ++ rest) = some (Nat.toDigits 10 n, rest) := by
  have hdigits : ∀ c ∈ Nat.toDigits 10 n, c.isDigit = true := fun c hc =>
    Nat.isDigit_of_mem_toDigits (by decide) (by decide) hc
  rw [readWhole?, spanDigits_append hdigits hrest]
  split
  · rename_i h
    exact absurd (Prod.mk.inj h).1 Nat.toDigits_ne_nil
  · rename_i h
    have hlead := (Prod.mk.inj h).1
    have hzero := eq_zero_of_toDigits hlead
    subst hzero
    simp at hlead
  · rename_i h
    obtain ⟨rfl, rfl⟩ := Prod.mk.inj h
    rfl

theorem readFraction?_of_stops {rest : List Char} (h : StopsNumber rest) :
    readFraction? rest = some ([], rest) := by
  unfold readFraction?
  split
  · exact absurd rfl (h '.' rfl).2.1
  · rfl

theorem readExponent?_of_stops {rest : List Char} (h : StopsNumber rest) :
    readExponent? rest = some ([], rest) := by
  cases rest with
  | nil => rfl
  | cons c rest =>
    obtain ⟨-, -, hlower, hupper⟩ := h c rfl
    simp [readExponent?, hlower, hupper]

/-- A printed number begins with a digit. -/
theorem exists_toDigits_eq_cons (n : Nat) :
    ∃ c cs, Nat.toDigits 10 n = c :: cs ∧ c.isDigit = true := by
  obtain ⟨c, cs, h⟩ := List.exists_cons_of_ne_nil (Nat.toDigits_ne_nil (n := n) (b := 10))
  refine ⟨c, cs, h, Nat.isDigit_of_mem_toDigits (b := 10) (n := n) (by decide) (by decide) ?_⟩
  rw [h]
  exact List.mem_cons_self

theorem readNumber?_toDigits (n : Nat) {rest : List Char} (hrest : StopsNumber rest) :
    readNumber? (Nat.toDigits 10 n ++ rest) = some (.nat n, rest) := by
  obtain ⟨c, cs, hdigits, hc⟩ := exists_toDigits_eq_cons n
  have hsign : c ≠ '-' := by
    rintro rfl
    exact absurd hc (by decide)
  have hwhole := readWhole?_toDigits n hrest
  have hvalue := Nat.ofDigitChars_toDigits (b := 10) (n := n) (by decide) (by decide)
  rw [hdigits, List.cons_append] at hwhole ⊢
  rw [hdigits] at hvalue
  rw [readNumber?]
  · simp [hwhole, readFraction?_of_stops hrest, readExponent?_of_stops hrest, hvalue]
  · simp [hsign]

/-! ## Blanks -/

/-- The layout puts nothing but blanks between the tokens. -/
structure Layout.IsBlank (layout : Layout) : Prop where
  lineBreak : ∀ depth, ∀ c ∈ layout.lineBreak depth, isJsonBlank c = true
  afterColon : ∀ c ∈ layout.afterColon, isJsonBlank c = true

theorem Layout.isBlank_compact : Layout.compact.IsBlank where
  lineBreak := by simp [Layout.compact]
  afterColon := by simp [Layout.compact]

theorem Layout.isBlank_pretty : Layout.pretty.IsBlank where
  lineBreak := by
    intro depth c hc
    rcases List.mem_cons.1 hc with rfl | hc
    · rfl
    · rw [List.eq_of_mem_replicate hc]
      rfl
  afterColon := by simp [Layout.pretty, isJsonBlank]

theorem skipBlanks_append {blanks : List Char} (h : ∀ c ∈ blanks, isJsonBlank c = true)
    (rest : List Char) : skipBlanks (blanks ++ rest) = skipBlanks rest :=
  List.dropWhile_append_of_pos h

theorem skipBlanks_cons {c : Char} (h : isJsonBlank c = false) (rest : List Char) :
    skipBlanks (c :: rest) = c :: rest := by
  simp [skipBlanks, h]

theorem skipBlanks_quote {blanks : List Char} (h : ∀ c ∈ blanks, isJsonBlank c = true)
    (s : String) (rest : List Char) :
    skipBlanks (blanks ++ (quote s ++ rest)) = quote s ++ rest := by
  rw [skipBlanks_append h, quote_append, skipBlanks_cons (by decide)]

theorem stopsNumber_append {blanks rest : List Char} (h : ∀ c ∈ blanks, isJsonBlank c = true)
    (hrest : StopsNumber rest) : StopsNumber (blanks ++ rest) := by
  cases blanks with
  | nil => exact hrest
  | cons c blanks =>
    have hc := h c List.mem_cons_self
    simp only [isJsonBlank, Bool.or_eq_true, beq_iff_eq] at hc
    apply stopsNumber_cons
    rcases hc with ((rfl | rfl) | rfl) | rfl <;> decide

/-! ## Values -/

/-- A printed value begins with a character of its own. -/
theorem exists_print_eq_cons (layout : Layout) (depth : Nat) {json : Json}
    (h : json.isWhole = true) :
    ∃ c cs, print layout depth json = c :: cs ∧ isJsonBlank c = false ∧ c ≠ ']' := by
  match json with
  | .null | .bool true | .bool false => exact ⟨_, _, rfl, by decide, by decide⟩
  | .nat n =>
    obtain ⟨c, cs, hdigits, hc⟩ := exists_toDigits_eq_cons n
    refine ⟨c, cs, by rw [print, hdigits], ?_, ?_⟩
    · rw [Bool.eq_false_iff]
      intro hblank
      simp only [isJsonBlank, Bool.or_eq_true, beq_iff_eq] at hblank
      rcases hblank with ((rfl | rfl) | rfl) | rfl <;> exact absurd hc (by decide)
    · rintro rfl
      exact absurd hc (by decide)
  | .real _ => simp [isWhole] at h
  | .str s => exact ⟨_, _, by rw [print, quote, List.cons_append], by decide, by decide⟩
  | .arr [] | .arr (_ :: _) => exact ⟨_, _, by rw [print], by decide, by decide⟩
  | .obj [] | .obj (_ :: _) => exact ⟨_, _, by rw [print], by decide, by decide⟩

variable {layout : Layout} {bound room : Nat}

theorem skipBlanks_print {blanks : List Char} (hblanks : ∀ c ∈ blanks, isJsonBlank c = true)
    (depth : Nat) {json : Json} (h : json.isWhole = true) (rest : List Char) :
    skipBlanks (blanks ++ (print layout depth json ++ rest)) = print layout depth json ++ rest := by
  obtain ⟨c, cs, hprint, hblank, -⟩ := exists_print_eq_cons layout depth h
  rw [skipBlanks_append hblanks, hprint, List.cons_append, skipBlanks_cons hblank]

/-- All readers of a bound read back what is printed in fewer characters than that, as far as they
have room for it. -/
structure ReadsBack (layout : Layout) (bound : Nat) : Prop where
  value : ∀ (json : Json) (room depth : Nat) (rest : List Char), json.isWhole = true →
    StopsNumber rest → (print layout depth json).length < bound →
    readValue? bound room (print layout depth json ++ rest) =
      if json.nesting ≤ room then some (json, rest) else none
  items : ∀ (item : Json) (items : List Json) (room depth : Nat) (close rest : List Char),
    item.isWhole = true → areWhole items = true → (∀ c ∈ close, isJsonBlank c = true) →
    (print layout depth item ++ printItems layout depth items).length + 1 < bound →
    readItems? bound room (print layout depth item ++ (printItems layout depth items ++
      (close ++ ']' :: rest))) =
        if itemsNesting (item :: items) ≤ room then some (item :: items, rest) else none
  members : ∀ (name : String) (value : Json) (members : List (String × Json)) (room depth : Nat)
    (close rest : List Char), value.isWhole = true → membersAreWhole members = true →
    (∀ c ∈ close, isJsonBlank c = true) →
    (print layout depth value ++ printMembers layout depth members).length + 1 < bound →
    readMembers? bound room (quote name ++ ':' :: (layout.afterColon ++
      (print layout depth value ++ (printMembers layout depth members ++
        (close ++ '\x7d' :: rest))))) =
        if membersNesting ((name, value) :: members) ≤ room then
          some ((name, value) :: members, rest)
        else none

/-- What follows a value inside brackets, a comma or blanks and the closing bracket, does not
continue a number. -/
theorem stopsNumber_inside {tail close rest : List Char} {bracket : Char}
    (htail : tail = [] ∨ tail.head? = some ',') (hclose : ∀ c ∈ close, isJsonBlank c = true)
    (hbracket : bracket = ']' ∨ bracket = '\x7d') :
    StopsNumber (tail ++ (close ++ bracket :: rest)) := by
  rcases htail with rfl | htail
  · apply stopsNumber_append hclose
    apply stopsNumber_cons
    rcases hbracket with rfl | rfl <;> decide
  · obtain ⟨more, rfl⟩ := List.head?_eq_some_iff.1 htail
    exact stopsNumber_cons (by decide)

/-! ## One step of the readers -/

theorem readValue?_digit {c : Char} {cs : List Char} (hc : c.isDigit = true) :
    readValue? (bound + 1) room (c :: cs) = readNumber? (c :: cs) := by
  rw [readValue?]
  all_goals
    intro rest h
    obtain ⟨rfl, -⟩ := List.cons.inj h
    exact absurd hc (by decide)

theorem readValue?_arr {cs : List Char} (h : (skipBlanks cs).head? ≠ some ']') :
    readValue? (bound + 1) (room + 1) ('[' :: cs) =
      (readItems? bound room (skipBlanks cs)).map fun (items, rest) => (.arr items, rest) := by
  rw [readValue?]
  dsimp only
  split
  · rename_i hclose
    simp [hclose] at h
  · rfl

theorem readValue?_obj {cs : List Char} (h : (skipBlanks cs).head? ≠ some '\x7d') :
    readValue? (bound + 1) (room + 1) ('\x7b' :: cs) =
      (readMembers? bound room (skipBlanks cs)).map fun (members, rest) => (.obj members, rest) := by
  rw [readValue?]
  dsimp only
  split
  · rename_i hclose
    simp [hclose] at h
  · rfl

/-- Without room no container is opened. -/
theorem readValue?_container {c : Char} {cs : List Char} (hc : c = '[' ∨ c = '\x7b') :
    readValue? (bound + 1) 0 (c :: cs) = none := by
  rcases hc with rfl | rfl <;> rw [readValue?]

theorem readValue?_print_succ (hl : layout.IsBlank) (h : ReadsBack layout bound) (json : Json)
    (room depth : Nat) (rest : List Char) (hjson : json.isWhole = true) (hrest : StopsNumber rest)
    (hlength : (print layout depth json).length < bound + 1) :
    readValue? (bound + 1) room (print layout depth json ++ rest) =
      if json.nesting ≤ room then some (json, rest) else none := by
  match json, room with
  | .null, _ | .bool true, _ | .bool false, _ => simp [print, readValue?, nesting]
  | .nat n, _ =>
    obtain ⟨c, cs, hdigits, hc⟩ := exists_toDigits_eq_cons n
    simp only [nesting, Nat.zero_le, if_true]
    rw [print, ← readNumber?_toDigits n hrest, hdigits, List.cons_append, readValue?_digit hc]
  | .real _, _ => simp [isWhole] at hjson
  | .str s, _ => simp [print, quote_append, readValue?, readString?_escaped, nesting]
  | .arr [], 0 | .arr (_ :: _), 0 =>
    rw [print, List.cons_append, readValue?_container (.inl rfl), if_neg (by simp [nesting])]
  | .obj [], 0 | .obj (_ :: _), 0 =>
    rw [print, List.cons_append, readValue?_container (.inr rfl), if_neg (by simp [nesting])]
  | .arr [], room + 1 => simp [print, readValue?, skipBlanks, isJsonBlank, nesting, itemsNesting]
  | .obj [], room + 1 => simp [print, readValue?, skipBlanks, isJsonBlank, nesting, membersNesting]
  | .arr (item :: items), room + 1 =>
    obtain ⟨hitem, hitems⟩ : item.isWhole = true ∧ areWhole items = true := by
      simpa [isWhole, areWhole] using hjson
    have hrec := h.items item items room (depth + 1) (layout.lineBreak depth) rest hitem hitems
      (hl.lineBreak depth) (by simp [print] at hlength ⊢; omega)
    simp only [print, List.cons_append, List.append_assoc, List.nil_append]
    rw [readValue?_arr, skipBlanks_print (hl.lineBreak _) _ hitem, hrec]
    · simp only [nesting, Nat.add_le_add_iff_right]
      split_ifs <;> rfl
    · obtain ⟨c, cs, hprint, -, hopen⟩ := exists_print_eq_cons layout (depth + 1) hitem
      rw [skipBlanks_print (hl.lineBreak _) _ hitem, hprint]
      simpa using hopen
  | .obj ((name, value) :: members), room + 1 =>
    obtain ⟨hvalue, hmembers⟩ : value.isWhole = true ∧ membersAreWhole members = true := by
      simpa [isWhole, membersAreWhole] using hjson
    have hrec := h.members name value members room (depth + 1) (layout.lineBreak depth) rest hvalue
      hmembers (hl.lineBreak depth) (by simp [print] at hlength ⊢; omega)
    simp only [print, List.cons_append, List.append_assoc, List.nil_append]
    rw [readValue?_obj, skipBlanks_quote (hl.lineBreak _), hrec]
    · simp only [nesting, Nat.add_le_add_iff_right]
      split_ifs <;> rfl
    · rw [skipBlanks_quote (hl.lineBreak _)]
      simp [quote]

theorem readItems?_print_succ (hl : layout.IsBlank) (h : ReadsBack layout bound) (item : Json)
    (items : List Json) (room depth : Nat) (close rest : List Char) (hitem : item.isWhole = true)
    (hitems : areWhole items = true) (hclose : ∀ c ∈ close, isJsonBlank c = true)
    (hlength : (print layout depth item ++ printItems layout depth items).length + 1 < bound + 1) :
    readItems? (bound + 1) room (print layout depth item ++ (printItems layout depth items ++
      (close ++ ']' :: rest))) =
        if itemsNesting (item :: items) ≤ room then some (item :: items, rest) else none := by
  rw [List.length_append] at hlength
  have hstops : StopsNumber (printItems layout depth items ++ (close ++ ']' :: rest)) :=
    stopsNumber_inside (by cases items <;> simp [printItems]) hclose (.inl rfl)
  rw [readItems?, h.value item room depth _ hitem hstops (by omega)]
  by_cases hroom : item.nesting ≤ room
  · simp only [hroom, if_true, itemsNesting, Nat.max_le, true_and]
    cases items with
    | nil =>
      simp [printItems, skipBlanks_append hclose, skipBlanks_cons (c := ']') rfl, itemsNesting]
    | cons next items =>
      obtain ⟨hnext, hitems⟩ : next.isWhole = true ∧ areWhole items = true := by
        simpa [areWhole] using hitems
      have hrec := h.items next items room depth close rest hnext hitems hclose
        (by simp [printItems] at hlength ⊢; omega)
      simp only [printItems, List.cons_append, List.append_assoc]
      rw [skipBlanks_cons (by decide)]
      simp only [skipBlanks_print (hl.lineBreak depth) depth hnext, hrec]
      split_ifs <;> rfl
  · simp only [hroom, if_false, itemsNesting, Nat.max_le, false_and]

theorem readMembers?_print_succ (hl : layout.IsBlank) (h : ReadsBack layout bound) (name : String)
    (value : Json) (members : List (String × Json)) (room depth : Nat) (close rest : List Char)
    (hvalue : value.isWhole = true) (hmembers : membersAreWhole members = true)
    (hclose : ∀ c ∈ close, isJsonBlank c = true)
    (hlength : (print layout depth value ++ printMembers layout depth members).length + 1 <
      bound + 1) :
    readMembers? (bound + 1) room (quote name ++ ':' :: (layout.afterColon ++
      (print layout depth value ++ (printMembers layout depth members ++
        (close ++ '\x7d' :: rest))))) =
        if membersNesting ((name, value) :: members) ≤ room then
          some ((name, value) :: members, rest)
        else none := by
  rw [List.length_append] at hlength
  have hstops : StopsNumber (printMembers layout depth members ++ (close ++ '\x7d' :: rest)) :=
    stopsNumber_inside (by cases members <;> simp [printMembers]) hclose (.inr rfl)
  have hread := h.value value room depth _ hvalue hstops (by omega)
  rw [quote_append, readMembers?]
  simp only [readString?_escaped, skipBlanks_cons (c := ':') (by decide),
    skipBlanks_print hl.afterColon depth hvalue, hread, String.ofList_toList]
  by_cases hroom : value.nesting ≤ room
  · simp only [hroom, if_true, membersNesting, Nat.max_le, true_and]
    cases members with
    | nil =>
      simp [printMembers, skipBlanks_append hclose, skipBlanks_cons (c := '\x7d') rfl,
        membersNesting]
    | cons member members =>
      obtain ⟨next, nextValue⟩ := member
      obtain ⟨hnext, hmembers⟩ : nextValue.isWhole = true ∧ membersAreWhole members = true := by
        simpa [membersAreWhole] using hmembers
      have hrec := h.members next nextValue members room depth close rest hnext hmembers hclose
        (by simp [printMembers] at hlength ⊢; omega)
      simp only [printMembers, List.cons_append, List.append_assoc]
      rw [skipBlanks_cons (by decide)]
      simp only [skipBlanks_quote (hl.lineBreak depth), hrec]
      split_ifs <;> rfl
  · simp only [hroom, if_false, membersNesting, Nat.max_le, false_and]

/-- Every bound suffices for what is printed in fewer characters. -/
theorem readsBack (hl : layout.IsBlank) (bound : Nat) : ReadsBack layout bound := by
  induction bound with
  | zero =>
    constructor <;> intros <;> omega
  | succ bound ih =>
    exact {
      value := readValue?_print_succ hl ih
      items := readItems?_print_succ hl ih
      members := readMembers?_print_succ hl ih }

/-- A printed value reads back as itself, unless it is nested too deep. -/
theorem read?_print (hl : layout.IsBlank) {json : Json} (h : json.isWhole = true) :
    read? (String.ofList (print layout 0 json)) =
      if json.nesting ≤ nestingLimit then some json else none := by
  have hskip : skipBlanks (print layout 0 json) = print layout 0 json := by
    simpa using skipBlanks_print (List.forall_mem_nil _) 0 h []
  have hread := (readsBack hl ((print layout 0 json).length + 1)).value json nestingLimit 0 [] h
    stopsNumber_nil (Nat.lt_succ_self _)
  rw [List.append_nil] at hread
  simp only [read?, String.toList_ofList, hskip, hread]
  split_ifs <;> rfl

theorem read?_compact {json : Json} (h : json.isWhole = true) :
    read? json.compact = if json.nesting ≤ nestingLimit then some json else none :=
  read?_print Layout.isBlank_compact h

theorem read?_pretty {json : Json} (h : json.isWhole = true) :
    read? json.pretty = if json.nesting ≤ nestingLimit then some json else none :=
  read?_print Layout.isBlank_pretty h

end DocOutline.Json
