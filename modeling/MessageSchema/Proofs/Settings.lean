import MessageSchema.Config.Json

/-!
# Configurations survive being written

A configuration is written as indented JSON and read back by a strict reader. The
reader undoes the writer piece by piece, whatever follows the piece: an escape gives
back its character, a quoted text its characters, a line its item, a list its names,
and a field its list.

A list is read by adding its names to a set one after the other. The names of a set
are written in ascending order and without repetitions, but neither matters here:
adding all names of a set to the empty set gives the set back. So every configuration
is read as it was written, whatever characters its names have.
-/

namespace MessageSchema

open Data.Json (hexadecimal quotedChar quoted newline render renderItems renderFields)

namespace JsonReader

/-! ## Quoted texts -/

/-- The digits that are written are read with their values. There are sixteen of them, so they
can be tried out. -/
theorem digit?_digitChar : ∀ d < 16, Literal.Number.digit? 16 d.digitChar = some d := by
  decide +kernel

/-- Four hexadecimal digits are read as the number they were written for, whatever follows. Each
digit holds four bits of a number below two to the sixteen. -/
theorem hexadecimal4_hexadecimal {n : Nat} (bound : n < 0x10000) (rest : List Char) :
    hexadecimal4 (hexadecimal 4 n ++ rest) = .ok (n, rest) := by
  have digit (m : Nat) : Literal.Number.digit? 16 (m % 16).digitChar = some (m % 16) :=
    digit?_digitChar _ (Nat.mod_lt _ (by decide))
  have digits : hexadecimal 4 n = [(n / 0x1000 % 16).digitChar, (n / 0x100 % 16).digitChar,
      (n / 0x10 % 16).digitChar, (n % 16).digitChar] := by
    simp [hexadecimal, List.range, List.range.loop]
  rw [digits]
  simp [hexadecimal4, Literal.Number.isDigit, Literal.Number.value, digit]
  omega

/-- What lies below the blank is no half of a pair, so its escape stands for itself. -/
theorem escape_control {c : Char} (control : c.toNat < 0x20) (rest : List Char) :
    escape true ('u' :: (hexadecimal 4 c.toNat ++ rest)) = .ok (c, rest) := by
  have notTrailing : isTrailing c.toNat = false := by
    simp [isTrailing]
    omega
  have notLeading : isLeading c.toNat = false := by
    simp [isLeading]
    omega
  have read := hexadecimal4_hexadecimal (show c.toNat < 0x10000 by omega) rest
  simp [escape, unicodeEscape, read, notTrailing, notLeading]

/-- In a quoted text an escape gives the character that is read behind the backslash. -/
theorem string_escape {text after : List Char} {c : Char}
    (read : escape true text = .ok (c, after)) :
    string true ('\\' :: text) = (string true after).map fun read => (c :: read.1, read.2) := by
  rw [string]
  split
  case h_1 other behind reads =>
    cases read.symm.trans reads
    cases string true after <;> rfl
  case h_2 fault failed => cases read.symm.trans failed

/-- In a quoted text a character that need not be escaped is read as itself. -/
theorem string_plain {c : Char} (notQuote : c ≠ '"') (notEscape : c ≠ '\\')
    (shown : 0x20 ≤ c.toNat) (rest : List Char) :
    string true (c :: rest) = (string true rest).map fun read => (c :: read.1, read.2) := by
  rw [string, if_neg (Nat.not_lt.mpr shown)]
  · cases string true rest <;> rfl
  · exact notQuote
  · exact notEscape

/-- A character is read as it was written, whatever follows. -/
theorem string_quotedChar (c : Char) (rest : List Char) :
    string true (quotedChar c ++ rest)
      = (string true rest).map fun read => (c :: read.1, read.2) := by
  unfold quotedChar
  split
  case h_8 notQuote notEscape _ _ _ _ _ =>
    by_cases control : c.toNat < 0x20
    · rw [if_pos control]
      exact string_escape (escape_control control rest)
    · rw [if_neg control]
      exact string_plain notQuote notEscape (by omega) rest
  all_goals exact string_escape rfl

/-- A quoted text is read as the text it was written for, by induction on its characters. -/
theorem string_quoted (text rest : List Char) :
    string true (text.flatMap quotedChar ++ '"' :: rest) = .ok (text, rest) := by
  induction text with
  | nil => rw [List.flatMap_nil, List.nil_append, string]
  | cons c text ih =>
    rw [List.flatMap_cons, List.append_assoc, string_quotedChar, ih]
    rfl

/-- A quoted name begins and ends with a quote. -/
theorem toList_quoted (name : String) (rest : List Char) :
    (quoted name).toList ++ rest = '"' :: (name.toList.flatMap quotedChar ++ '"' :: rest) := by
  simp [quoted]

/-! ## Lines -/

/-- A mark that is no blank ends the blanks. -/
theorem skipBlanks_mark {c : Char} (mark : isBlank c = false) (rest : List Char) :
    skipBlanks (c :: rest) = c :: rest :=
  List.dropWhile_cons_of_neg (Bool.not_eq_true _ ▸ mark)

/-- The blanks at the beginning of a line are skipped. -/
theorem skipBlanks_newline {c : Char} (mark : isBlank c = false) (depth : Nat)
    (rest : List Char) : skipBlanks ((newline depth).toList ++ c :: rest) = c :: rest := by
  have blanks : ∀ c ∈ (newline depth).toList, isBlank c = true := by
    simp [newline, isBlank]
  rw [skipBlanks, List.dropWhile_append_of_pos blanks]
  exact skipBlanks_mark mark rest

section Steps

variable {close : Char}

/-- At the closing mark on a new line a list is closed. -/
theorem step_closed {first : Bool} (mark : isBlank close = false) (depth : Nat)
    (rest : List Char) :
    step close first ((newline depth).toList ++ close :: rest) = .ok (.closed rest) := by
  simp [step, skipBlanks_newline mark]

/-- The first item that is a quoted text, or has one as its key. -/
theorem step_first (opens : '"' ≠ close) (depth : Nat) (name : String) (rest : List Char) :
    step close true ((newline depth).toList ++ ((quoted name).toList ++ rest))
      = .ok (.item ((quoted name).toList ++ rest)) := by
  rw [toList_quoted]
  have ahead := skipBlanks_newline (c := '"') rfl depth
  simp [step, ahead, opens]

/-- Every further such item. -/
theorem step_next (opens : '"' ≠ close) (comma : ',' ≠ close) (depth : Nat) (name : String)
    (rest : List Char) :
    step close false (',' :: ((newline depth).toList ++ ((quoted name).toList ++ rest)))
      = .ok (.item ((quoted name).toList ++ rest)) := by
  rw [toList_quoted]
  have separated := skipBlanks_mark (c := ',') rfl
  have ahead := skipBlanks_newline (c := '"') rfl depth
  simp [step, separated, comma, ahead, opens]

end Steps

/-! ## Items -/

namespace ItemReader

variable {α : Type} {reader : ItemReader α} {close : Char} {first : Bool} {before after : α}
  {text item rest : List Char}

/-- Behind the last item nothing is added to what was read. -/
theorem items_closed (closed : step close first text = .ok (.closed rest)) :
    reader.items close first before text = .ok (before, rest) := by
  rw [items]
  split
  case h_2 behind found =>
    cases closed.symm.trans found
    rfl
  all_goals
    rename_i found
    cases closed.symm.trans found

/-- An item is read, and the loop goes on behind it with what was made of it. -/
theorem items_item (opens : step close first text = .ok (.item item))
    (taken : reader.read before item = .ok (after, rest)) :
    reader.items close first before text = reader.items close false after rest := by
  rw [items]
  split
  case h_3 other found =>
    cases opens.symm.trans found
    split
    case h_1 fault failed => cases taken.symm.trans failed
    case h_2 made behind reads =>
      cases taken.symm.trans reads
      rfl
  all_goals
    rename_i found
    cases opens.symm.trans found

end ItemReader

end JsonReader

namespace ConfigReader

open JsonReader ItemReader

variable {set : NameSet} {fields : Fields}

/-! ## Lists of names -/

/-- A name is added as it was written, whatever follows. -/
theorem nameItem_quoted (name : String) (rest : List Char) :
    nameReader.read set ((quoted name).toList ++ rest) = .ok (set.insert name, rest) := by
  have reads : nameReader.read = nameItem := rfl
  rw [toList_quoted, reads, nameItem, string_quoted]
  simp only [String.ofList_toList]

/-- Behind an item the next one is written after a comma, on a line of its own. -/
theorem toList_renderItems (depth : Nat) (name : String) (more : List Data) (rest : List Char) :
    (renderItems depth (.text name :: more)).toList ++ rest
      = ',' :: ((newline (depth + 1)).toList
        ++ ((quoted name).toList ++ ((renderItems depth more).toList ++ rest))) := by
  rw [renderItems, render]
  simp only [String.toList_append, List.append_assoc]
  rfl

/-- A list that is not empty is written with one item on a line, between brackets. -/
theorem toList_render_list (depth : Nat) (name : String) (more : List Data) (rest : List Char) :
    (render depth (.list (.text name :: more))).toList ++ rest
      = '[' :: ((newline (depth + 1)).toList
        ++ ((quoted name).toList ++ ((renderItems depth more).toList
        ++ ((newline depth).toList ++ ']' :: rest)))) := by
  rw [render, render]
  simp only [String.toList_append, List.append_assoc]
  rfl

/-- The names behind the first are added one by one. -/
theorem items_renderItems (depth : Nat) (more : List String) (rest : List Char) :
    nameReader.items ']' false set ((renderItems depth (more.map Data.text)).toList
        ++ ((newline depth).toList ++ ']' :: rest))
      = .ok (more.foldl Std.ExtTreeSet.insert set, rest) := by
  induction more generalizing set with
  | nil => exact items_closed (step_closed rfl depth rest)
  | cons name more ih =>
    rw [List.foldl_cons, ← ih, List.map_cons, toList_renderItems]
    exact items_item (step_next (by decide) (by decide) (depth + 1) name _) (nameItem_quoted name _)

/-- A list of names is read behind its colon as the set of these names. An empty list is closed
at once, and a longer one is read item by item. -/
theorem namesAfterColon_render_list (depth : Nat) (values : List String) (rest : List Char) :
    namesAfterColon (": ".toList ++ ((render depth (Data.listOf Data.text values)).toList ++ rest))
      = .ok (values.foldl Std.ExtTreeSet.insert ∅, rest) := by
  rw [Data.listOf]
  cases values with
  | nil =>
    rw [List.map_nil, render]
    show nameReader.items ']' true ∅ _ = _
    exact items_closed rfl
  | cons name more =>
    rw [List.foldl_cons, ← items_renderItems depth, List.map_cons, toList_render_list]
    exact items_item (step_first (by decide) (depth + 1) name _) (nameItem_quoted name _)

/-- Adding all names of a set to the empty set gives the set. A name is in the outcome exactly
if it is in the list that was added. -/
theorem foldl_insert_toList (set : NameSet) :
    set.toList.foldl Std.ExtTreeSet.insert ∅ = set := by
  rw [← Std.ExtTreeSet.ofList_eq_foldl]
  apply Std.ExtTreeSet.ext_mem
  intro name
  rw [Std.ExtTreeSet.mem_ofList, List.contains_iff_mem, Std.ExtTreeSet.mem_toList]

/-- A set of names is read as it was written, whatever follows. -/
theorem namesAfterColon_render (depth : Nat) (set : NameSet) (rest : List Char) :
    namesAfterColon (": ".toList ++ ((render depth (Config.namesData set)).toList ++ rest))
      = .ok (set, rest) := by
  have read := namesAfterColon_render_list depth set.toList rest
  rwa [foldl_insert_toList] at read

/-! ## The fields -/

/-- The key of a list is recognised. -/
theorem ofKey?_key (list : ListName) : ListName.ofKey? list.key.toList = some list := by
  cases list <;> rfl

/-- A key is read as it was written, and what follows is read under it. -/
theorem fieldItem_quoted (name : String) (rest : List Char) :
    fieldReader.read fields ((quoted name).toList ++ rest) = fieldValue fields name.toList rest := by
  have reads : fieldReader.read = fieldItem := rfl
  rw [toList_quoted, reads, fieldItem, key, string_quoted]

/-- A list that was not read before is read behind its key, and the other list stays. -/
theorem fieldItem_list (list : ListName) (fresh : fields.get? list = none) (depth : Nat)
    (set : NameSet) (rest : List Char) :
    fieldReader.read fields ((quoted list.key).toList
        ++ (": ".toList ++ ((render depth (Config.namesData set)).toList ++ rest)))
      = .ok (fields.set set list, rest) := by
  rw [fieldItem_quoted, fieldValue, ofKey?_key]
  simp only [listField, fresh, namesAfterColon_render, Option.isSome_none, Bool.false_eq_true,
    if_false]

/-- A configuration is written as its two lists of names, each behind its key on a line of its
own. -/
theorem toList_toJson (config : Config) :
    config.toJson.toList
      = '\x7b' :: ((newline 1).toList ++ ((quoted "builtins").toList ++ (": ".toList
        ++ ((render 1 (Config.namesData config.builtins)).toList
        ++ ',' :: ((newline 1).toList ++ ((quoted "reserved").toList ++ (": ".toList
        ++ ((render 1 (Config.namesData config.reserved)).toList
        ++ ((newline 0).toList ++ ['\x7d']))))))))) := by
  rw [Config.toJson, Data.toJson, Config.toData, render, renderFields, renderFields]
  simp only [String.toList_append, List.append_assoc]
  rfl

/-- The two fields are read one after the other, and nothing is left behind them. -/
theorem value_toJson (config : Config) : value config.toJson.toList = .ok (config, []) := by
  rw [toList_toJson]
  show (fieldReader.items '\x7d' true .none _).map _ = _
  rw [items_item (step_first (by decide) 1 "builtins" _)
      (fieldItem_list .builtins rfl 1 config.builtins _),
    items_item (step_next (by decide) (by decide) 1 "reserved" _)
      (fieldItem_list .reserved rfl 1 config.reserved _),
    items_closed (step_closed rfl 0 [])]
  rfl

end ConfigReader

/-- Every configuration is read from its JSON text as it was written.

Proof: the reader takes the written text piece by piece, from characters to names, lists and
fields, and is left with nothing behind the closing brace. -/
theorem Config.ofJson_toJson (config : Config) : Config.ofJson config.toJson = .ok config := by
  rw [Config.ofJson, ConfigReader.value_toJson]
  rfl

end MessageSchema
