/-
  The text of JSON values.

  A value that is written over several lines is read back as it was.  The writer
  escapes quotes, backslashes and control characters, the last of these by a word
  or by number; the reader knows more escapes than the writer uses.  Numbers are
  left out: they are kept by their text, which need not be one of a number.

  * `readString_quoted`: a string, with any characters in it.
  * `Json.Textual`: values without numbers, all of whose strings have content.
  * `Json.read_pretty`: their text is read back, whatever space is after it.
-/
import ScopedResources.Json.Reader
import ScopedResources.Proofs.Utf8

namespace ScopedResources.Json

variable {rest : List Char} {parts : List Part}

/-! ## Strings -/

/-- What a part of a string says when it was written for a character. -/
def Part.Names : Part → Char → Prop
  | .char c, c' => c = c'
  | .unit n, c => n = c.toNat ∧ n < 0x20

theorem hexUnit?_control :
    ∀ n < 0x20, hexUnit? '0' '0' (Nat.digitChar (n / 16)) (Nat.digitChar (n % 16)) = some n := by
  decide

theorem readParts_plain {c : Char} (hquote : c ≠ '"') (hslash : c ≠ '\\') (hplain : ¬ c.toNat < 0x20) :
    readParts parts (c :: rest) = readParts (.char c :: parts) rest := by
  rw [readParts.eq_def]
  split
  case h_5 =>
    rename_i heq
    cases heq
    rw [if_neg hslash, if_neg hplain]
  all_goals simp_all

/-- What is written for a character is read as one part of a string. -/
theorem readParts_escapeChar (c : Char) : ∃ part : Part, part.Names c ∧
    ∀ parts rest, readParts parts (escapeChar c ++ rest) = readParts (part :: parts) rest := by
  unfold escapeChar
  split
  case h_8 =>
    rename_i hquote hslash _ _ _ _ _
    split
    · rename_i hcontrol
      refine ⟨.unit c.toNat, ⟨rfl, hcontrol⟩, fun parts rest => ?_⟩
      simp only [List.cons_append, List.nil_append, readParts, hexUnit?_control _ hcontrol]
    · rename_i hplain
      exact ⟨.char c, rfl, fun _ _ => readParts_plain hquote hslash hplain⟩
  all_goals exact ⟨.char _, rfl, fun _ _ => by simp [readParts, shortEscape?]⟩

/-- A written string is read up to its closing quote. -/
theorem readParts_quoted : ∀ cs : List Char, ∃ names, List.Forall₂ Part.Names names cs ∧
    ∀ parts rest, readParts parts (cs.flatMap escapeChar ++ '"' :: rest) =
      .ok (parts.reverse ++ names, rest)
  | [] => ⟨[], .nil, fun parts rest => by simp [readParts]⟩
  | c :: cs => by
    obtain ⟨part, hpart, hread⟩ := readParts_escapeChar c
    obtain ⟨names, hnames, hmore⟩ := readParts_quoted cs
    refine ⟨part :: names, .cons hpart hnames, fun parts rest => ?_⟩
    rw [List.flatMap_cons, List.append_assoc, hread, hmore]
    simp

/-- The parts that were written for characters stand for them; no control character
    is half of a surrogate pair. -/
theorem pairParts_of_names : ∀ {names : List Part} {cs : List Char},
    List.Forall₂ Part.Names names cs → pairParts names = cs.map some
  | [], [], .nil => rfl
  | .char _ :: names, _ :: cs, .cons rfl h => by
    rw [pairParts, pairParts_of_names h, List.map_cons]
  | .unit n :: names, c :: cs, .cons ⟨hn, hlt⟩ h => by
    have hhigh : isHighSurrogate n = false := by
      simp only [isHighSurrogate, Bool.and_eq_false_iff, decide_eq_false_iff_not]
      omega
    have hlow : isLowSurrogate n = false := by
      simp only [isLowSurrogate, Bool.and_eq_false_iff, decide_eq_false_iff_not]
      omega
    have hrest := pairParts_of_names h
    have hchar : Char.ofNat n = c := by rw [hn, Char.ofNat_toNat]
    cases names with
    | nil => simp [pairParts, hhigh, hlow, hchar, ← hrest]
    | cons next names =>
      rw [List.map_cons, ← hrest, ← hchar]
      cases next with
      | char c' => simp [pairParts, hhigh, hlow]
      | unit low => rw [pairParts]; simp [hhigh, hlow]

/-- A written string is read back, with any characters in it. -/
theorem readString_quoted (s : String) (rest : List Char) :
    readString (s.toList.flatMap escapeChar ++ '"' :: rest) = .ok (some s, rest) := by
  obtain ⟨names, hnames, hread⟩ := readParts_quoted s.toList
  have hcontent : contentOfParts names = some s := by
    rw [contentOfParts, pairParts_of_names hnames, Utf8.mapM_id_eq_some_iff.2 rfl, Option.map_some,
      String.ofList_toList]
  rw [readString, hread]
  simp only [List.reverse_nil, List.nil_append]
  show Except.ok (contentOfParts names, rest) = _
  rw [hcontent]

theorem toList_quote (s : String) :
    (quote s).toList = '"' :: (s.toList.flatMap escapeChar ++ ['"']) := by
  rw [quote, String.toList_ofList, List.cons_append]

/-! ## The layout of a text -/

/-- A text that is nothing but space to a reader. -/
def Blank (cs : List Char) : Prop :=
  ∀ c ∈ cs, isSpace c = true

theorem skipSpace_append {blank : List Char} (h : Blank blank) (cs : List Char) :
    skipSpace (blank ++ cs) = skipSpace cs := by
  rw [skipSpace, skipSpace, List.dropWhile_append_of_pos h]

theorem skipSpace_cons {c : Char} (h : isSpace c = false) (cs : List Char) :
    skipSpace (c :: cs) = c :: cs := by
  rw [skipSpace, List.dropWhile_cons_of_neg (by simp [h])]

theorem toList_newLine (level : Nat) :
    (newLine level).toList = '\n' :: List.replicate (2 * level) ' ' := by
  simp [newLine]

theorem blank_newLine (level : Nat) : Blank (newLine level).toList := by
  intro c hc
  rw [toList_newLine, List.mem_cons, List.mem_replicate] at hc
  rcases hc with rfl | ⟨-, rfl⟩ <;> decide

theorem toList_joined (separator : String) : ∀ (first : String) (more : List String),
    (joined separator (first :: more)).toList =
      first.toList ++ more.flatMap fun part => separator.toList ++ part.toList
  | first, [] => by simp [joined]
  | first, part :: more => by
    have hstep : joined separator (first :: part :: more) =
        joined separator ((first ++ separator ++ part) :: more) := rfl
    rw [hstep, toList_joined separator _ more]
    simp

/-- A block with a part in it: its brackets, and each part on a line of its own. -/
theorem toList_block (opening closing : String) (level : Nat) (first : String)
    (more : List String) :
    (block opening closing level (first :: more)).toList =
      opening.toList ++ (newLine (level + 1)).toList ++ first.toList ++
        (more.flatMap fun part => ',' :: ((newLine (level + 1)).toList ++ part.toList)) ++
        (newLine level).toList ++ closing.toList := by
  have hseparator : ("," ++ newLine (level + 1)).toList = ',' :: (newLine (level + 1)).toList := by
    simp
  simp only [block, String.toList_append, toList_joined, hseparator, List.cons_append,
    List.append_assoc]

/-! ## Values -/

mutual

/-- A value without numbers, all of whose strings have content. -/
def Textual : Json → Prop
  | .null | .bool _ => True
  | .number _ => False
  | .string content => content.isSome
  | .array items => TextualItems items
  | .object members => TextualMembers members

def TextualItems : List Json → Prop
  | [] => True
  | item :: more => Textual item ∧ TextualItems more

def TextualMembers : List (Option String × Json) → Prop
  | [] => True
  | (key, value) :: more => key.isSome ∧ Textual value ∧ TextualMembers more

end

mutual

/-- How many values, items and members are read of a value. -/
def cost : Json → Nat
  | .null | .bool _ | .number _ | .string _ => 1
  | .array items => costItems items + 1
  | .object members => costMembers members + 1

def costItems : List Json → Nat
  | [] => 0
  | item :: more => cost item + costItems more + 1

def costMembers : List (Option String × Json) → Nat
  | [] => 0
  | (_, value) :: more => cost value + costMembers more + 1

end

/-- The first character of a value's text is neither space nor a closing bracket. -/
theorem exists_head : ∀ {value : Json} (level : Nat), Textual value →
    ∃ c cs, (prettyAt level value).toList = c :: cs ∧ isSpace c = false ∧ c ≠ ']'
  | .null, _, _ => ⟨'n', ['u', 'l', 'l'], by simp [prettyAt], rfl, by decide⟩
  | .bool true, _, _ => ⟨'t', ['r', 'u', 'e'], by simp [prettyAt], rfl, by decide⟩
  | .bool false, _, _ => ⟨'f', ['a', 'l', 's', 'e'], by simp [prettyAt], rfl, by decide⟩
  | .string content, level, _ => by
    refine ⟨'"', (content.getD "").toList.flatMap escapeChar ++ ['"'], ?_, rfl, by decide⟩
    rw [prettyAt, quoteContent, toList_quote]
  | .array [], level, _ => ⟨'[', [']'], by simp [prettyAt, prettyItems, block], rfl, by decide⟩
  | .array (item :: more), level, _ => by
    rw [prettyAt, prettyItems, toList_block]
    exact ⟨'[', _, rfl, rfl, by decide⟩
  | .object [], level, _ =>
    ⟨'\x7b', ['\x7d'], by simp [prettyAt, prettyMembers, block], rfl, by decide⟩
  | .object ((key, value) :: more), level, _ => by
    rw [prettyAt, prettyMembers, toList_block]
    exact ⟨'\x7b', _, rfl, rfl, by decide⟩

/-- The rest of the items of an array, from the end of one on. -/
def itemsAfter (level : Nat) (items : List Json) : List Char :=
  (prettyItems (level + 1) items).flatMap fun part =>
    ',' :: ((newLine (level + 1)).toList ++ part.toList)

def membersAfter (level : Nat) (members : List (Option String × Json)) : List Char :=
  (prettyMembers (level + 1) members).flatMap fun part =>
    ',' :: ((newLine (level + 1)).toList ++ part.toList)

/-- A member, from inside its key on. -/
def memberFrom (level : Nat) (key : Option String) (value : Json) : List Char :=
  (key.getD "").toList.flatMap escapeChar ++
    '"' :: ':' :: ' ' :: (prettyAt (level + 1) value).toList

/-! ### How a reader goes on -/

theorem readValue_blank {fuel : Nat} {blank : List Char} (h : Blank blank) (cs : List Char) :
    readValue (fuel + 1) (blank ++ cs) = readValue (fuel + 1) cs := by
  rw [readValue, readValue, skipSpace_append h]

theorem readValue_string (fuel : Nat) (s : String) (rest : List Char) :
    readValue (fuel + 1) ('"' :: (s.toList.flatMap escapeChar ++ '"' :: rest)) =
      .ok (.string (some s), rest) := by
  have hdispatch : ∀ cs, readValue (fuel + 1) ('"' :: cs) =
      (readString cs).bind fun result => .ok (.string result.1, result.2) := fun cs => by
    rw [readValue]; rfl
  rw [hdispatch, readString_quoted]
  rfl

theorem readValue_array {fuel : Nat} {c : Char} {cs more : List Char} (hskip : skipSpace cs = c :: more)
    (hc : c ≠ ']') : readValue (fuel + 1) ('[' :: cs) = readItems fuel [] (c :: more) := by
  rw [readValue, skipSpace_cons rfl]
  simp only [hskip]
  split
  · rename_i heq; cases heq
  · rename_i heq; cases heq; exact absurd rfl hc
  · rfl

theorem readValue_object {fuel : Nat} {cs more : List Char} (hskip : skipSpace cs = '"' :: more) :
    readValue (fuel + 1) ('\x7b' :: cs) = readMembers fuel [] more := by
  rw [readValue, skipSpace_cons rfl]
  simp only [hskip]

section

variable {fuel : Nat} {blank cs more : List Char} {item value : Json} {items : List Json}
  {members : List (Option String × Json)} {c : Char}

theorem skipSpace_blank (h : Blank blank) (hc : isSpace c = false) (cs : List Char) :
    skipSpace (blank ++ c :: cs) = c :: cs := by
  rw [skipSpace_append h, skipSpace_cons hc]

theorem readItems_last (hread : readValue fuel cs = .ok (item, blank ++ ']' :: rest))
    (hblank : Blank blank) :
    readItems (fuel + 1) items cs = .ok (.array (item :: items).reverse, rest) := by
  have hend : skipSpace (blank ++ ']' :: rest) = ']' :: rest := skipSpace_blank hblank rfl rest
  simp only [readItems, hread, bind, Except.bind, hend]

theorem readItems_next (hread : readValue fuel cs = .ok (item, ',' :: (blank ++ c :: more)))
    (hblank : Blank blank) (hspace : isSpace c = false) (hc : c ≠ ']') :
    readItems (fuel + 1) items cs = readItems fuel (item :: items) (c :: more) := by
  have hcomma : skipSpace (',' :: (blank ++ c :: more)) = ',' :: (blank ++ c :: more) :=
    skipSpace_cons rfl _
  have hnext : skipSpace (blank ++ c :: more) = c :: more := skipSpace_blank hblank hspace more
  simp only [readItems, hread, bind, Except.bind, hcomma, hnext]
  split
  · rename_i heq; cases heq; exact absurd rfl hc
  · rfl

theorem readMembers_last (key : String)
    (hread : readValue fuel cs = .ok (value, blank ++ '\x7d' :: rest)) (hblank : Blank blank) :
    readMembers (fuel + 1) members (key.toList.flatMap escapeChar ++ '"' :: ':' :: cs) =
      .ok (.object ((some key, value) :: members).reverse, rest) := by
  have hcolon : skipSpace (':' :: cs) = ':' :: cs := skipSpace_cons rfl _
  have hend : skipSpace (blank ++ '\x7d' :: rest) = '\x7d' :: rest := skipSpace_blank hblank rfl rest
  simp only [readMembers, readString_quoted, bind, Except.bind, hcolon, hread, hend]

theorem readMembers_next (key : String)
    (hread : readValue fuel cs = .ok (value, ',' :: (blank ++ '"' :: more)))
    (hblank : Blank blank) :
    readMembers (fuel + 1) members (key.toList.flatMap escapeChar ++ '"' :: ':' :: cs) =
      readMembers fuel ((some key, value) :: members) more := by
  have hcolon : skipSpace (':' :: cs) = ':' :: cs := skipSpace_cons rfl _
  have hcomma : skipSpace (',' :: (blank ++ '"' :: more)) = ',' :: (blank ++ '"' :: more) :=
    skipSpace_cons rfl _
  have hnext : skipSpace (blank ++ '"' :: more) = '"' :: more := skipSpace_blank hblank rfl more
  simp only [readMembers, readString_quoted, bind, Except.bind, hcolon, hread, hcomma, hnext]

end

/-! ### Reading what was written -/

theorem itemsAfter_cons (level : Nat) (item : Json) (more : List Json) :
    itemsAfter level (item :: more) =
      ',' :: ((newLine (level + 1)).toList ++ (prettyAt (level + 1) item).toList) ++
        itemsAfter level more := by
  rw [itemsAfter, prettyItems, List.flatMap_cons]
  rfl

theorem membersAfter_cons (level : Nat) (key : Option String) (value : Json)
    (more : List (Option String × Json)) :
    membersAfter level ((key, value) :: more) =
      ',' :: ((newLine (level + 1)).toList ++ '"' :: memberFrom level key value) ++
        membersAfter level more := by
  rw [membersAfter, prettyMembers, List.flatMap_cons]
  simp [memberFrom, quoteContent, toList_quote, membersAfter]

theorem toList_array (level : Nat) (item : Json) (more : List Json) :
    (prettyAt level (.array (item :: more))).toList =
      '[' :: ((newLine (level + 1)).toList ++ ((prettyAt (level + 1) item).toList ++
        (itemsAfter level more ++ ((newLine level).toList ++ [']'])))) := by
  rw [prettyAt, prettyItems, toList_block]
  simp [itemsAfter]

theorem toList_object (level : Nat) (key : Option String) (value : Json)
    (more : List (Option String × Json)) :
    (prettyAt level (.object ((key, value) :: more))).toList =
      '\x7b' :: ((newLine (level + 1)).toList ++ ('"' :: memberFrom level key value ++
        (membersAfter level more ++ ((newLine level).toList ++ ['\x7d'])))) := by
  rw [prettyAt, prettyMembers, toList_block]
  simp [membersAfter, memberFrom, quoteContent, toList_quote]

theorem blank_space : Blank [' '] := by
  intro c hc
  rw [List.mem_singleton.1 hc]
  rfl

theorem one_le_cost (value : Json) : 1 ≤ cost value := by
  cases value <;> simp [cost]

mutual

theorem readValue_pretty : ∀ {value : Json} (fuel level : Nat) (rest : List Char),
    Textual value → cost value ≤ fuel + 1 →
    readValue (fuel + 1) ((prettyAt level value).toList ++ rest) = .ok (value, rest)
  | .null, fuel, level, rest, _, _ => by
    simp [prettyAt, readValue, skipSpace_cons, isSpace, readWord]
  | .bool true, fuel, level, rest, _, _ => by
    simp [prettyAt, readValue, skipSpace_cons, isSpace, readWord]
  | .bool false, fuel, level, rest, _, _ => by
    simp [prettyAt, readValue, skipSpace_cons, isSpace, readWord]
  | .string (some s), fuel, level, rest, _, _ => by
    rw [prettyAt, quoteContent, Option.getD_some, toList_quote, List.cons_append,
      List.append_assoc, List.singleton_append, readValue_string]
  | .array [], fuel, level, rest, _, _ => by
    simp [prettyAt, prettyItems, block, readValue, skipSpace_cons, isSpace]
  | .array (item :: more), fuel, level, rest, ⟨hitem, hmore⟩, hfuel => by
    obtain ⟨c, cs, hhead, hspace, hc⟩ := exists_head (level + 1) hitem
    have hread := readItems_pretty fuel level [] rest hitem hmore (Nat.le_of_succ_le_succ hfuel)
    simp only [toList_array, hhead, List.cons_append, List.append_assoc, List.nil_append] at hread ⊢
    rw [readValue_array (skipSpace_blank (blank_newLine _) hspace _) hc, hread]
    rfl
  | .object [], fuel, level, rest, _, _ => by
    simp [prettyAt, prettyMembers, block, readValue, skipSpace_cons, isSpace]
  | .object ((some key, value) :: more), fuel, level, rest, ⟨_, hvalue, hmore⟩, hfuel => by
    have hread := readMembers_pretty key fuel level [] rest hvalue hmore
      (Nat.le_of_succ_le_succ hfuel)
    simp only [toList_object, List.cons_append, List.append_assoc, List.nil_append] at hread ⊢
    rw [readValue_object (skipSpace_blank (blank_newLine _) rfl _), hread]
    rfl
termination_by value => cost value
decreasing_by all_goals simp only [cost]; omega

theorem readItems_pretty : ∀ {item : Json} {more : List Json} (fuel level : Nat)
    (items : List Json) (rest : List Char), Textual item → TextualItems more →
    costItems (item :: more) ≤ fuel →
    readItems fuel items ((prettyAt (level + 1) item).toList ++ (itemsAfter level more ++
      ((newLine level).toList ++ ']' :: rest))) = .ok (.array (items.reverse ++ item :: more), rest)
  | item, [], fuel, level, items, rest, hitem, hmore, hfuel => by
    have hpos := one_le_cost item
    simp only [costItems] at hfuel
    obtain ⟨fuel, rfl⟩ : ∃ f, fuel = f + 2 := ⟨fuel - 2, by omega⟩
    have hvalue := readValue_pretty fuel (level + 1)
      ((newLine level).toList ++ ']' :: rest) hitem (by omega)
    rw [itemsAfter, prettyItems, List.flatMap_nil, List.nil_append,
      readItems_last hvalue (blank_newLine level), List.reverse_cons]
  | item, next :: more, fuel, level, items, rest, hitem, ⟨hnext, hmore⟩, hfuel => by
    have hpos := one_le_cost item
    simp only [costItems] at hfuel
    obtain ⟨fuel, rfl⟩ : ∃ f, fuel = f + 2 := ⟨fuel - 2, by omega⟩
    obtain ⟨c, cs, hhead, hspace, hc⟩ := exists_head (level + 1) hnext
    have hvalue := readValue_pretty fuel (level + 1)
      (itemsAfter level (next :: more) ++ ((newLine level).toList ++ ']' :: rest)) hitem (by omega)
    have hrest := readItems_pretty (fuel + 1) level (item :: items) rest hnext hmore
      (by simp only [costItems]; omega)
    simp only [itemsAfter_cons, hhead, List.cons_append, List.append_assoc] at hvalue hrest ⊢
    rw [readItems_next hvalue (blank_newLine _) hspace hc, hrest, List.reverse_cons,
      List.append_assoc, List.singleton_append]
termination_by item more => costItems (item :: more)
decreasing_by all_goals simp only [costItems]; omega

theorem readMembers_pretty : ∀ (key : String) {value : Json}
    {more : List (Option String × Json)} (fuel level : Nat)
    (members : List (Option String × Json)) (rest : List Char), Textual value →
    TextualMembers more → costMembers ((some key, value) :: more) ≤ fuel →
    readMembers fuel members (memberFrom level (some key) value ++ (membersAfter level more ++
      ((newLine level).toList ++ '\x7d' :: rest))) =
        .ok (.object (members.reverse ++ (some key, value) :: more), rest)
  | key, value, [], fuel, level, members, rest, hvalue, hmore, hfuel => by
    have hpos := one_le_cost value
    simp only [costMembers] at hfuel
    obtain ⟨fuel, rfl⟩ : ∃ f, fuel = f + 2 := ⟨fuel - 2, by omega⟩
    have hread := readValue_pretty fuel (level + 1)
      ((newLine level).toList ++ '\x7d' :: rest) hvalue (by omega)
    rw [← readValue_blank blank_space] at hread
    simp only [memberFrom, membersAfter, prettyMembers, List.flatMap_nil, Option.getD_some,
      List.cons_append, List.append_assoc, List.nil_append] at hread ⊢
    rw [readMembers_last key hread (blank_newLine level), List.reverse_cons]
  | key, value, (some next, value') :: more, fuel, level, members, rest, hvalue,
      ⟨_, hvalue', hmore⟩, hfuel => by
    have hpos := one_le_cost value
    simp only [costMembers] at hfuel
    obtain ⟨fuel, rfl⟩ : ∃ f, fuel = f + 2 := ⟨fuel - 2, by omega⟩
    have hread := readValue_pretty fuel (level + 1)
      (membersAfter level ((some next, value') :: more) ++
        ((newLine level).toList ++ '\x7d' :: rest)) hvalue (by omega)
    have hrest := readMembers_pretty next (fuel + 1) level
      ((some key, value) :: members) rest hvalue' hmore (by simp only [costMembers]; omega)
    rw [← readValue_blank blank_space] at hread
    simp only [membersAfter_cons, List.cons_append, List.append_assoc, List.nil_append] at hread hrest ⊢
    rw [memberFrom]
    simp only [Option.getD_some, List.cons_append, List.append_assoc]
    rw [readMembers_next key hread (blank_newLine _), hrest, List.reverse_cons,
      List.append_assoc, List.singleton_append]
termination_by key value more => costMembers ((some key, value) :: more)
decreasing_by all_goals simp only [costMembers]; omega

end

/-! ## Whole texts -/

mutual

/-- A text has a character for each value, item and member. -/
theorem cost_le_length : ∀ {value : Json} (level : Nat), Textual value →
    cost value ≤ (prettyAt level value).toList.length
  | .null, level, _ => by simp [cost, prettyAt]
  | .bool true, level, _ => by simp [cost, prettyAt]
  | .bool false, level, _ => by simp [cost, prettyAt]
  | .string (some s), level, _ => by simp [cost, prettyAt, quoteContent, toList_quote]
  | .array [], level, _ => by simp [cost, costItems, prettyAt, prettyItems, block]
  | .array (item :: more), level, ⟨hitem, hmore⟩ => by
    have h₁ := cost_le_length (level + 1) hitem
    have h₂ := costItems_le_length level hmore
    simp only [cost, costItems, toList_array, List.length_cons, List.length_append]
    omega
  | .object [], level, _ => by simp [cost, costMembers, prettyAt, prettyMembers, block]
  | .object ((key, value) :: more), level, ⟨_, hvalue, hmore⟩ => by
    have h₁ := cost_le_length (level + 1) hvalue
    have h₂ := costMembers_le_length level hmore
    simp only [cost, costMembers, toList_object, memberFrom, List.length_cons, List.length_append]
    omega

theorem costItems_le_length : ∀ {items : List Json} (level : Nat), TextualItems items →
    costItems items ≤ (itemsAfter level items).length
  | [], level, _ => Nat.zero_le _
  | item :: more, level, ⟨hitem, hmore⟩ => by
    have h₁ := cost_le_length (level + 1) hitem
    have h₂ := costItems_le_length level hmore
    simp only [costItems, itemsAfter_cons, List.length_cons, List.length_append]
    omega

theorem costMembers_le_length : ∀ {members : List (Option String × Json)} (level : Nat),
    TextualMembers members → costMembers members ≤ (membersAfter level members).length
  | [], level, _ => Nat.zero_le _
  | (key, value) :: more, level, ⟨_, hvalue, hmore⟩ => by
    have h₁ := cost_le_length (level + 1) hvalue
    have h₂ := costMembers_le_length level hmore
    simp only [costMembers, membersAfter_cons, memberFrom, List.length_cons, List.length_append]
    omega

end

/-- A value that was written over several lines is read back, also with space
    after it. -/
theorem read_pretty {value : Json} (h : Textual value) {space : String}
    (hspace : Blank space.toList) : read (pretty value ++ space) = .ok value := by
  have hcost := cost_le_length 0 h
  have hread := readValue_pretty (pretty value ++ space).toList.length 0 space.toList h
    (by rw [pretty, String.toList_append, List.length_append]; omega)
  have hend : skipSpace space.toList = [] := by
    have := skipSpace_append hspace []
    rwa [List.append_nil] at this
  rw [read, String.toList_append, pretty] 
  rw [String.toList_append, pretty] at hread
  simp only [hread, bind, Except.bind, hend]

end ScopedResources.Json
