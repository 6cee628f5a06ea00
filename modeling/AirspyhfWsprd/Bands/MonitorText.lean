import AirspyhfWsprd.Bands.Advisor

/-!
The texts in which the PSK Reporter lists its monitors: an array of flat JSON objects
behind the key `activeReceiver`. The scanners of the response pass over blanks, values
and keys as a JSON parser would, whatever a string has in it.
-/

namespace AirspyhfWsprd.Bands

open Library

/-- White space, also none. -/
abbrev Blank := {text : CString // ∀ c ∈ text, isspace c = true}

/-- What stands between the quotes of a string: a backslash is followed by the character it
escapes, and every quote is escaped. -/
inductive StringText : CString → Prop where
  | nil : StringText []
  | plain {c : UInt8} {rest : CString} (hquote : c ≠ quote) (hbackslash : c ≠ backslash)
      (hrest : StringText rest) : StringText (c :: rest)
  | escaped {c : UInt8} {rest : CString} (hrest : StringText rest) :
      StringText (backslash :: c :: rest)

def EscapeFree (text : CString) : Prop := ∀ c ∈ text, c ≠ quote ∧ c ≠ backslash

instance : DecidablePred EscapeFree := fun text => List.decidableBAll _ text

def quoted (text : CString) : CString := quote :: (text ++ [quote])

/-- A character of a number. -/
def isNumeric (c : UInt8) : Bool := isdigit c || (bytes "+-.eE").contains c

/-- A value that is neither an array nor an object. -/
inductive FlatValue where
  | string (text : CString) (htext : StringText text)
  | number (text : CString) (hne : text ≠ []) (htext : ∀ c ∈ text, isNumeric c = true)
  | boolean (value : Bool)
  | null

def FlatValue.text : FlatValue → CString
  | .string text _ => quoted text
  | .number text _ _ => text
  | .boolean true => bytes "true"
  | .boolean false => bytes "false"
  | .null => bytes "null"

/-- Texts with a comma between any two of them. -/
def commaJoined : List CString → CString
  | [] => []
  | [text] => text
  | text :: next :: texts => text ++ ','.toUInt8 :: commaJoined (next :: texts)

/-- A name in a list of bands, with the blanks around it. -/
structure ListedName where
  before : Blank
  name : CString
  after : Blank
  escapeFree : EscapeFree name
  one : ','.toUInt8 ∉ name
  first : ∀ c ∈ name.head?, isspace c = false
  last : ∀ c ∈ name.getLast?, isspace c = false

def ListedName.text (listed : ListedName) : CString :=
  listed.before.val ++ listed.name ++ listed.after.val

theorem EscapeFree.stringText {text : CString} (h : EscapeFree text) : StringText text := by
  induction text with
  | nil => exact .nil
  | cons c rest ih =>
      obtain ⟨hquote, hbackslash⟩ := h c List.mem_cons_self
      exact .plain hquote hbackslash (ih fun d hd => h d (List.mem_cons_of_mem c hd))

/-- A property of the joined text's characters. -/
theorem forall_commaJoined {p : UInt8 → Prop} (hcomma : p ','.toUInt8) {texts : List CString}
    (htexts : ∀ text ∈ texts, ∀ c ∈ text, p c) : ∀ c ∈ commaJoined texts, p c := by
  induction texts with
  | nil => exact nofun
  | cons text rest ih =>
      have hrest := ih fun other hother => htexts other (List.mem_cons_of_mem text hother)
      have htext := htexts text List.mem_cons_self
      cases rest with
      | nil => exact htext
      | cons next texts =>
          intro c hc
          rcases List.mem_append.mp hc with hfirst | hcons
          · exact htext c hfirst
          · rcases List.mem_cons.mp hcons with rfl | hlater
            · exact hcomma
            · exact hrest c hlater

/-- What no scanner stops at: neither a quote nor a bracket nor a brace. -/
def isMark (c : UInt8) : Bool := c == quote || (bytes "[]{}").contains c

theorem isSpace_unmarked : ∀ c, isspace c = true → isMark c = false :=
  forall_byte (by decide +kernel)

theorem isNumeric_unmarked : ∀ c, isNumeric c = true → isMark c = false ∧ isspace c = false :=
  forall_byte (by decide +kernel)

theorem isalpha_unmarked : ∀ c, isalpha c = true → isMark c = false ∧ isspace c = false :=
  forall_byte (by decide +kernel)

theorem isSpace_escapeFree : ∀ c, isspace c = true → c ≠ quote ∧ c ≠ backslash :=
  forall_byte (by decide +kernel)

theorem Blank.unmarked (blank : Blank) : ∀ c ∈ blank.val, isMark c = false :=
  fun c hc => isSpace_unmarked c (blank.property c hc)

theorem ListedName.text_escapeFree (listed : ListedName) : EscapeFree listed.text := by
  intro c hc
  rcases List.mem_append.mp hc with hfront | hafter
  · rcases List.mem_append.mp hfront with hbefore | hname
    · exact isSpace_escapeFree c (listed.before.property c hbefore)
    · exact listed.escapeFree c hname
  · exact isSpace_escapeFree c (listed.after.property c hafter)

theorem listedNames_escapeFree (names : List ListedName) :
    EscapeFree (commaJoined (names.map (·.text))) := by
  apply forall_commaJoined (p := fun c => c ≠ quote ∧ c ≠ backslash) (by decide)
  intro text htext
  obtain ⟨listed, -, rfl⟩ := List.mem_map.mp htext
  exact listed.text_escapeFree

/-- A member of a monitor's object. The members `bands` and `frequency` have the values that
the response gives them, and any other member has any value. -/
inductive MonitorContent where
  | bands (names : List ListedName) (distinct : (names.map (·.name)).Nodup)
  | frequency (digits : CString) (hne : digits ≠ []) (decimal : ∀ c ∈ digits, isdigit c = true)
      (fits : digitsValue 10 digits < 2 ^ 64)
  | other (key : CString) (escapeFree : EscapeFree key) (notBands : key ≠ bytes "bands")
      (notFrequency : key ≠ bytes "frequency") (value : FlatValue)

def MonitorContent.key : MonitorContent → CString
  | .bands _ _ => bytes "bands"
  | .frequency _ _ _ _ => bytes "frequency"
  | .other key _ _ _ _ => key

def MonitorContent.value : MonitorContent → FlatValue
  | .bands names _ =>
      .string (commaJoined (names.map (·.text))) (listedNames_escapeFree names).stringText
  | .frequency digits hne decimal _ =>
      .number digits hne fun c hc => by rw [isNumeric, decimal c hc, Bool.true_or]
  | .other _ _ _ _ value => value

/-- A member, with the blanks in front of its key, around the colon and behind its value. -/
structure MonitorMember where
  content : MonitorContent
  beforeKey : Blank
  beforeColon : Blank
  beforeValue : Blank
  afterValue : Blank

def MonitorMember.text (member : MonitorMember) : CString :=
  member.beforeKey.val ++ (quoted member.content.key ++ (member.beforeColon.val ++
    ':'.toUInt8 :: (member.beforeValue.val ++ (member.content.value.text ++
      member.afterValue.val))))

/-- A flat object: its members in any order, with distinct keys, and the blanks outside
and inside its braces. -/
structure MonitorObject where
  before : Blank
  inside : Blank
  members : List MonitorMember
  distinct : (members.map (·.content.key)).Nodup
  after : Blank

/-- The text between the braces. -/
def MonitorObject.body (object : MonitorObject) : CString :=
  object.inside.val ++ commaJoined (object.members.map (·.text))

def MonitorObject.text (object : MonitorObject) : CString :=
  object.before.val ++ ('{'.toUInt8 :: (object.body ++ '}'.toUInt8 :: object.after.val))

def activeReceiverKey : CString := quoted (bytes "activeReceiver")

/-- The text from the key's end to the end of the response. -/
def monitorArrayText (beforeColon beforeArray inside : Blank) (objects : List MonitorObject)
    (rest : CString) : CString :=
  beforeColon.val ++ ':'.toUInt8 :: (beforeArray.val ++ '['.toUInt8 ::
    (inside.val ++ commaJoined (objects.map (·.text)) ++ ']'.toUInt8 :: rest))

/-- A response in which the first `"activeReceiver"` is a key with an array of flat objects
behind it. What stands in front of the key and behind the array is any text. -/
structure MonitorResponse where
  preamble : CString
  beforeColon : Blank
  beforeArray : Blank
  inside : Blank
  objects : List MonitorObject
  rest : CString
  first : ∀ index < preamble.length, ¬ activeReceiverKey <+:
    (preamble ++ (activeReceiverKey ++
      monitorArrayText beforeColon beforeArray inside objects rest)).drop index

def MonitorResponse.text (response : MonitorResponse) : CString :=
  response.preamble ++ (activeReceiverKey ++ monitorArrayText response.beforeColon
    response.beforeArray response.inside response.objects response.rest)

/-- The search runs over the text and is where it was. -/
def Passes (opening closing : UInt8) (text : CString) : Prop :=
  ∀ depth rest, closingBracket opening closing depth false false (text ++ rest) =
    (closingBracket opening closing depth false false rest).map
      fun (inside, behind) => (text ++ inside, behind)

variable {opening closing : UInt8}

theorem passes_nil : Passes opening closing [] := by
  intro depth rest
  exact Option.map_id'.symm

theorem Passes.append {first second : CString} (hfirst : Passes opening closing first)
    (hsecond : Passes opening closing second) : Passes opening closing (first ++ second) := by
  intro depth rest
  rw [List.append_assoc, hfirst, hsecond, Option.map_map]
  congr 1
  funext pair
  exact congrArg (·, pair.2) (List.append_assoc _ _ _).symm

theorem passes_single {c : UInt8} (hquote : c ≠ quote) (hopening : c ≠ opening)
    (hclosing : c ≠ closing) : Passes opening closing [c] := by
  intro depth rest
  rw [List.singleton_append, closingBracket]
  dsimp only
  rw [if_neg Bool.false_ne_true, if_neg hquote, if_neg hopening, if_neg hclosing]
  rfl

theorem passes_of_forall {text : CString}
    (h : ∀ c ∈ text, c ≠ quote ∧ c ≠ opening ∧ c ≠ closing) : Passes opening closing text := by
  induction text with
  | nil => exact passes_nil
  | cons c rest ih =>
      obtain ⟨hquote, hopening, hclosing⟩ := h c List.mem_cons_self
      exact (passes_single hquote hopening hclosing).append
        (ih fun d hd => h d (List.mem_cons_of_mem c hd))

/-- Inside a string only its end counts. -/
theorem closingBracket_string {text : CString} (htext : StringText text) (depth : UInt32)
    (rest : CString) :
    closingBracket opening closing depth true false (text ++ quote :: rest) =
      (closingBracket opening closing depth false false rest).map
        fun (inside, behind) => (text ++ quote :: inside, behind) := by
  have hends : quote ≠ backslash := by decide
  induction htext with
  | nil =>
      rw [List.nil_append, closingBracket]
      dsimp only
      rw [if_pos rfl, if_neg Bool.false_ne_true, if_neg hends, if_pos rfl]
      rfl
  | plain hquote hbackslash _ ih =>
      rw [List.cons_append, closingBracket]
      dsimp only
      rw [if_pos rfl, if_neg Bool.false_ne_true, if_neg hbackslash, if_neg hquote, ih,
        Option.map_map]
      rfl
  | escaped _ ih =>
      rw [List.cons_append, List.cons_append, closingBracket]
      dsimp only
      rw [if_pos rfl, if_neg Bool.false_ne_true, if_pos rfl, closingBracket]
      dsimp only
      rw [if_pos rfl, if_pos rfl, ih, Option.map_map, Option.map_map]
      rfl

theorem passes_quoted {text : CString} (htext : StringText text) :
    Passes opening closing (quoted text) := by
  intro depth rest
  rw [quoted, List.cons_append, List.append_assoc, List.singleton_append, closingBracket]
  dsimp only
  rw [if_neg Bool.false_ne_true, if_pos rfl, closingBracket_string htext, Option.map_map]
  congr 1
  funext pair
  exact congrArg (quote :: ·, pair.2) (List.append_cons text quote pair.1)

theorem passes_commaJoined {texts : List CString} (hcomma : Passes opening closing [','.toUInt8])
    (htexts : ∀ text ∈ texts, Passes opening closing text) :
    Passes opening closing (commaJoined texts) := by
  induction texts with
  | nil => exact passes_nil
  | cons text rest ih =>
      have hrest := ih fun other hother => htexts other (List.mem_cons_of_mem text hother)
      have htext := htexts text List.mem_cons_self
      cases rest with
      | nil => exact htext
      | cons next texts => exact htext.append (hcomma.append hrest)

theorem Passes.closes {text : CString} (htext : Passes opening closing text)
    (hclosing : closing ≠ quote ∧ closing ≠ opening) (rest : CString) :
    closingBracket opening closing 1 false false (text ++ closing :: rest) = some (text, rest) := by
  rw [htext, closingBracket]
  dsimp only
  rw [if_neg Bool.false_ne_true, if_neg hclosing.1, if_neg hclosing.2, if_pos rfl,
    if_pos (by decide), Option.map_some, List.append_nil]

theorem unmarked_ne {c mark : UInt8} (hc : isMark c = false) (hmark : isMark mark = true) :
    c ≠ mark := by
  rintro rfl
  exact Bool.false_ne_true (hc.symm.trans hmark)

theorem passes_unmarked {text : CString} (hopening : isMark opening = true)
    (hclosing : isMark closing = true) (htext : ∀ c ∈ text, isMark c = false) :
    Passes opening closing text :=
  passes_of_forall fun c hc =>
    ⟨unmarked_ne (htext c hc) rfl, unmarked_ne (htext c hc) hopening,
      unmarked_ne (htext c hc) hclosing⟩

/-- A value is a string, or a word without a blank in it. -/
theorem FlatValue.text_cases (value : FlatValue) :
    (∃ text, StringText text ∧ value.text = quoted text) ∨
      value.text ≠ [] ∧ ∀ c ∈ value.text, isMark c = false ∧ isspace c = false := by
  have hletters {text : CString} (htext : text.all isalpha = true) :
      ∀ c ∈ text, isMark c = false ∧ isspace c = false :=
    fun c hc => isalpha_unmarked c (List.all_eq_true.mp htext c hc)
  cases value with
  | string text htext => exact Or.inl ⟨text, htext, rfl⟩
  | number text hne htext => exact Or.inr ⟨hne, fun c hc => isNumeric_unmarked c (htext c hc)⟩
  | boolean value =>
      cases value
      · exact Or.inr ⟨List.cons_ne_nil _ _, hletters rfl⟩
      · exact Or.inr ⟨List.cons_ne_nil _ _, hletters rfl⟩
  | null => exact Or.inr ⟨List.cons_ne_nil _ _, hletters rfl⟩

theorem MonitorContent.key_escapeFree (content : MonitorContent) : EscapeFree content.key := by
  cases content with
  | bands => exact (by decide : EscapeFree (bytes "bands"))
  | frequency => exact (by decide : EscapeFree (bytes "frequency"))
  | other key escapeFree => exact escapeFree

/-- The scan for a closing bracket passes over the text of a member as a whole: brackets and
quotes inside its strings are not counted. -/
theorem MonitorMember.text_passes (hopening : isMark opening = true)
    (hclosing : isMark closing = true) (member : MonitorMember) :
    Passes opening closing member.text := by
  have hblank (blank : Blank) : Passes opening closing blank.val :=
    passes_unmarked hopening hclosing blank.unmarked
  have hcolon : Passes opening closing [':'.toUInt8] :=
    passes_single (by decide) (unmarked_ne rfl hopening) (unmarked_ne rfl hclosing)
  have hvalue : Passes opening closing member.content.value.text := by
    rcases member.content.value.text_cases with ⟨text, htext, hquoted⟩ | ⟨-, hword⟩
    · rw [hquoted]
      exact passes_quoted htext
    · exact passes_unmarked hopening hclosing fun c hc => (hword c hc).1
  exact (hblank _).append ((passes_quoted member.content.key_escapeFree.stringText).append
    ((hblank _).append (hcolon.append ((hblank _).append (hvalue.append (hblank _))))))

theorem MonitorObject.body_passes (hopening : isMark opening = true)
    (hclosing : isMark closing = true) (object : MonitorObject) :
    Passes opening closing object.body := by
  apply (passes_unmarked hopening hclosing object.inside.unmarked).append
  apply passes_commaJoined
  · exact passes_single (by decide) (unmarked_ne rfl hopening) (unmarked_ne rfl hclosing)
  · intro text htext
    obtain ⟨member, -, rfl⟩ := List.mem_map.mp htext
    exact member.text_passes hopening hclosing

theorem jsonObjectEnd_body (object : MonitorObject) (rest : CString) :
    jsonObjectEnd (object.body ++ '}'.toUInt8 :: rest) = some (object.body, rest) :=
  (object.body_passes rfl rfl).closes (by decide) rest

/-- The array of the objects ends at its own bracket. -/
theorem jsonArrayEnd_objects (inside : Blank) (objects : List MonitorObject) (rest : CString) :
    jsonArrayEnd (inside.val ++ commaJoined (objects.map (·.text)) ++ ']'.toUInt8 :: rest) =
      some (inside.val ++ commaJoined (objects.map (·.text)), rest) := by
  have hpasses : Passes '['.toUInt8 ']'.toUInt8
      (inside.val ++ commaJoined (objects.map (·.text))) := by
    apply (passes_unmarked rfl rfl inside.unmarked).append
    apply passes_commaJoined (passes_single (by decide) (by decide) (by decide))
    intro text htext
    obtain ⟨object, -, rfl⟩ := List.mem_map.mp htext
    have hopen : Passes '['.toUInt8 ']'.toUInt8 ['{'.toUInt8] :=
      passes_single (by decide) (by decide) (by decide)
    have hclose : Passes '['.toUInt8 ']'.toUInt8 ['}'.toUInt8] :=
      passes_single (by decide) (by decide) (by decide)
    exact (passes_unmarked rfl rfl object.before.unmarked).append (hopen.append
      ((object.body_passes rfl rfl).append
        (hclose.append (passes_unmarked rfl rfl object.after.unmarked))))
  exact hpasses.closes (by decide) rest

/-- The end of a key is found at its quote, and the key is the text in front of that quote. -/
theorem keyEnd_string {text : CString} (htext : StringText text) (rest : CString) :
    keyEnd (text ++ quote :: rest) = some (text, rest) := by
  induction htext with
  | nil => rw [List.nil_append, keyEnd.eq_def]; exact if_pos rfl
  | plain hquote hbackslash _ ih =>
      rw [List.cons_append, keyEnd.eq_def]
      dsimp only
      rw [if_neg hquote, if_neg hbackslash, ih]
      rfl
  | escaped _ ih =>
      rw [List.cons_append, List.cons_append, keyEnd.eq_def]
      dsimp only
      rw [if_neg (by decide), if_pos rfl, ih]
      rfl

theorem skipSpace_blank (blank : Blank) (rest : CString) :
    skipSpace (blank.val ++ rest) = skipSpace rest :=
  List.dropWhile_append_of_pos blank.property

theorem skipSpace_cons {c : UInt8} (hc : isspace c = false) (rest : CString) :
    skipSpace (c :: rest) = c :: rest :=
  List.dropWhile_cons_of_neg (Bool.eq_false_iff.mp hc)

theorem jsonObjectValue_plain (wantedKey : CString) {text : CString}
    (htext : ∀ c ∈ text, c ≠ quote) (rest : CString) :
    jsonObjectValue wantedKey (text ++ rest) = jsonObjectValue wantedKey rest := by
  induction text with
  | nil => rfl
  | cons c text ih =>
      rw [List.cons_append, jsonObjectValue, if_pos (htext c List.mem_cons_self)]
      exact ih fun d hd => htext d (List.mem_cons_of_mem c hd)

/-- What the search makes of a string depends on the character behind it. -/
theorem jsonObjectValue_quoted (wantedKey : CString) {text : CString} (htext : StringText text)
    (rest : CString) :
    jsonObjectValue wantedKey (quoted text ++ rest) =
      match skipSpace rest with
      | [] => none
      | d :: behind =>
          if d ≠ ':'.toUInt8 then jsonObjectValue wantedKey behind
          else if text = wantedKey then some (skipSpace behind)
          else jsonObjectValue wantedKey (skipSpace behind) := by
  rw [quoted, List.cons_append, List.append_assoc, List.singleton_append, jsonObjectValue,
    if_neg (not_not.mpr rfl)]
  have hend := keyEnd_string htext rest
  split
  · rename_i hnone
    cases hnone.symm.trans hend
  · rename_i key behind hkey
    obtain ⟨rfl, rfl⟩ := Prod.mk.inj (Option.some.inj (hkey.symm.trans hend))
    split
    · rename_i hnil
      rw [hnil]
    · rename_i d behind' hcons
      rw [hcons]

/-- A value begins with a character that is not white space. -/
theorem FlatValue.text_head (value : FlatValue) :
    ∃ c rest, value.text = c :: rest ∧ isspace c = false := by
  rcases value.text_cases with ⟨text, -, hquoted⟩ | ⟨hne, hword⟩
  · exact ⟨quote, text ++ [quote], hquoted, rfl⟩
  · obtain ⟨c, rest, hcons⟩ := List.exists_cons_of_ne_nil hne
    exact ⟨c, rest, hcons, (hword c (hcons ▸ List.mem_cons_self)).2⟩

/-- Behind a value and its blanks the search goes on with the next member, if there is one. -/
theorem jsonObjectValue_value (wantedKey : CString) (value : FlatValue) (blank : Blank) :
    (∀ next, jsonObjectValue wantedKey (value.text ++ (blank.val ++ ','.toUInt8 :: next)) =
      jsonObjectValue wantedKey next) ∧
    jsonObjectValue wantedKey (value.text ++ (blank.val ++ [])) = none := by
  have hcomma : isspace ','.toUInt8 = false := by decide
  rcases value.text_cases with ⟨text, htext, hquoted⟩ | ⟨-, hword⟩
  · rw [hquoted, jsonObjectValue_quoted wantedKey htext, skipSpace_blank]
    refine ⟨fun next => ?_, rfl⟩
    rw [jsonObjectValue_quoted wantedKey htext, skipSpace_blank, skipSpace_cons hcomma]
    exact if_pos (by decide)
  · have hvalue : ∀ c ∈ value.text, c ≠ quote := fun c hc => unmarked_ne (hword c hc).1 rfl
    have hblank : ∀ c ∈ blank.val, c ≠ quote := fun c hc => unmarked_ne (blank.unmarked c hc) rfl
    constructor
    · intro next
      rw [jsonObjectValue_plain wantedKey hvalue, jsonObjectValue_plain wantedKey hblank,
        jsonObjectValue, if_pos (by decide)]
    · rw [jsonObjectValue_plain wantedKey hvalue, jsonObjectValue_plain wantedKey hblank,
        jsonObjectValue]

/-- A member's value is found behind its key, and the search passes over another key. -/
theorem jsonObjectValue_member (wantedKey : CString) (member : MonitorMember) (rest : CString) :
    jsonObjectValue wantedKey (member.text ++ rest) =
      if member.content.key = wantedKey then
        some (member.content.value.text ++ (member.afterValue.val ++ rest))
      else jsonObjectValue wantedKey
        (member.content.value.text ++ (member.afterValue.val ++ rest)) := by
  have hblank : ∀ c ∈ member.beforeKey.val, c ≠ quote :=
    fun c hc => unmarked_ne (member.beforeKey.unmarked c hc) rfl
  have hcolon : isspace ':'.toUInt8 = false := by decide
  obtain ⟨c, text, hvalue, hc⟩ := member.content.value.text_head
  rw [MonitorMember.text, List.append_assoc, jsonObjectValue_plain wantedKey hblank,
    List.append_assoc, jsonObjectValue_quoted wantedKey member.content.key_escapeFree.stringText,
    List.append_assoc, skipSpace_blank, List.cons_append, skipSpace_cons hcolon]
  dsimp only
  rw [if_neg (not_not.mpr rfl), List.append_assoc, skipSpace_blank, List.append_assoc, hvalue,
    List.cons_append, skipSpace_cons hc]

/-- What may stand behind the last blank of a member. -/
def EndsMember (rest : CString) : Prop := rest = [] ∨ ∃ next, rest = ','.toUInt8 :: next

/-- The lookup of a key that no member has finds nothing: values are not taken for keys, also
when a string value is spelt like one. -/
theorem jsonObjectValue_absent {wantedKey : CString} {members : List MonitorMember}
    (h : ∀ member ∈ members, member.content.key ≠ wantedKey) :
    jsonObjectValue wantedKey (commaJoined (members.map (·.text))) = none := by
  induction members with
  | nil => rw [List.map_nil, commaJoined, jsonObjectValue]
  | cons member members ih =>
      have hkey := h member List.mem_cons_self
      have hrest := ih fun other hother => h other (List.mem_cons_of_mem member hother)
      obtain ⟨hnext, hlast⟩ :=
        jsonObjectValue_value wantedKey member.content.value member.afterValue
      cases members with
      | nil =>
          rw [List.map_singleton, commaJoined, ← List.append_nil member.text,
            jsonObjectValue_member, if_neg hkey, hlast]
      | cons next members =>
          rw [List.map_cons, List.map_cons, commaJoined, jsonObjectValue_member, if_neg hkey,
            hnext]
          exact hrest

/-- The lookup of a key finds the value of the member that has it, wherever the member stands,
and the text goes on behind the value as the member's text does. -/
theorem jsonObjectValue_present {members : List MonitorMember} {member : MonitorMember}
    (hmember : member ∈ members) (hdistinct : (members.map (·.content.key)).Nodup) :
    ∃ rest, EndsMember rest ∧
      jsonObjectValue member.content.key (commaJoined (members.map (·.text))) =
        some (member.content.value.text ++ (member.afterValue.val ++ rest)) := by
  induction members with
  | nil => cases hmember
  | cons head members ih =>
      obtain ⟨hhead, hrest⟩ := List.nodup_cons.mp hdistinct
      rcases List.mem_cons.mp hmember with rfl | hmem
      · cases members with
        | nil =>
            refine ⟨[], Or.inl rfl, ?_⟩
            rw [List.map_singleton, commaJoined, ← List.append_nil member.text,
              jsonObjectValue_member, if_pos rfl]
        | cons next members =>
            refine ⟨_, Or.inr ⟨commaJoined ((next :: members).map (·.text)), rfl⟩, ?_⟩
            rw [List.map_cons, List.map_cons, commaJoined, jsonObjectValue_member, if_pos rfl]
      · obtain ⟨rest, hends, hvalue⟩ := ih hmem hrest
        refine ⟨rest, hends, ?_⟩
        have hkey : head.content.key ≠ member.content.key := by
          intro heq
          exact hhead (List.mem_map.mpr ⟨member, hmem, heq.symm⟩)
        cases members with
        | nil => cases hmem
        | cons next members =>
            rw [List.map_cons, List.map_cons, commaJoined, jsonObjectValue_member, if_neg hkey,
              (jsonObjectValue_value _ head.content.value head.afterValue).1]
            exact hvalue

theorem jsonObjectValue_body (wantedKey : CString) (object : MonitorObject) :
    jsonObjectValue wantedKey object.body =
      jsonObjectValue wantedKey (commaJoined (object.members.map (·.text))) :=
  jsonObjectValue_plain wantedKey
    (fun c hc => unmarked_ne (object.inside.unmarked c hc) rfl) _

end AirspyhfWsprd.Bands
