import AirspyhfWsprd.Library.Wire

/-!
IPFIX messages (version 10): a 16-byte header followed by sets. Template sets
describe records, data sets carry them. The decoder learns templates from the
message and reads each data set by the template of its set identifier, so it
knows nothing about what the fields mean.
-/

namespace AirspyhfWsprd.Library.Ipfix

/-- A field of a record. Length 65535 stands for a length-prefixed field. -/
structure FieldSpecifier where
  element : Nat
  length : Nat
  enterprise : Option Nat
deriving DecidableEq

structure Template where
  id : Nat
  scopeCount : Nat
  fields : List FieldSpecifier
deriving DecidableEq

def variableLength : Nat := 65535

/-- A record is the list of its fields' octets. -/
abbrev Record := List (List UInt8)

inductive SetContent where
  | templates (templates : List Template)
  | data (templateId : Nat) (records : List Record)
deriving DecidableEq

/-- A set of a message, with its length field and the padding behind its last
record. -/
structure DecodedSet where
  length : Nat
  content : SetContent
  padding : List UInt8
deriving DecidableEq

structure Message where
  length : Nat
  exportTime : Nat
  sequence : Nat
  observationDomain : Nat
  sets : List DecodedSet
deriving DecidableEq

/-- One field from the front of the input. A length-prefixed field of 255
octets or more has a two-byte length behind the byte 255. -/
def decodeField (field : FieldSpecifier) (input : List UInt8) :
    Option (List UInt8 × List UInt8) :=
  if field.length = variableLength then do
    let (short, input) ← readWord 1 input
    if short < 255 then readBytes short input
    else do
      let (long, input) ← readWord 2 input
      readBytes long input
  else readBytes field.length input

def decodeRecord : List FieldSpecifier → List UInt8 → Option (Record × List UInt8)
  | [], input => some ([], input)
  | field :: fields, input => do
      let (value, input) ← decodeField field input
      let (values, input) ← decodeRecord fields input
      return (value :: values, input)

/-- The least number of bytes a record can take. -/
def minimumLength (fields : List FieldSpecifier) : Nat :=
  (fields.map fun field => if field.length = variableLength then 1 else field.length).sum

/-- What is left of a set is padding when no record fits into it, or when it is
only the zero bytes that fill the set up to a multiple of `alignment`. -/
def isPadding (alignment : Nat) (fields : List FieldSpecifier) (input : List UInt8) : Bool :=
  input.length < minimumLength fields || (input.length < alignment && input.all (· == 0))

/-- Records up to the padding. Every record takes at least one byte, so `fuel`
above the input's length is never used up. -/
def decodeRecords (alignment : Nat) (fields : List FieldSpecifier) :
    (fuel : Nat) → List UInt8 → Option (List Record × List UInt8)
  | 0, _ => none
  | fuel + 1, input =>
      if isPadding alignment fields input then some ([], input)
      else do
        let (record, input) ← decodeRecord fields input
        let (records, padding) ← decodeRecords alignment fields fuel input
        return (record :: records, padding)

/-- The top bit of the element identifier announces an enterprise number. -/
def decodeFieldSpecifier (input : List UInt8) : Option (FieldSpecifier × List UInt8) := do
  let (element, input) ← readWord 2 input
  let (length, input) ← readWord 2 input
  if 0x8000 ≤ element then do
    let (enterprise, input) ← readWord 4 input
    return (⟨element - 0x8000, length, some enterprise⟩, input)
  else return (⟨element, length, none⟩, input)

def decodeFieldSpecifiers :
    (count : Nat) → List UInt8 → Option (List FieldSpecifier × List UInt8)
  | 0, input => some ([], input)
  | count + 1, input => do
      let (field, input) ← decodeFieldSpecifier input
      let (fields, input) ← decodeFieldSpecifiers count input
      return (field :: fields, input)

/-- A template record, or an options template record with its scope count. -/
def decodeTemplate (options : Bool) (input : List UInt8) : Option (Template × List UInt8) := do
  let (id, input) ← readWord 2 input
  let (count, input) ← readWord 2 input
  let (scopeCount, input) ← if options then readWord 2 input else some (0, input)
  let (fields, input) ← decodeFieldSpecifiers count input
  return (⟨id, scopeCount, fields⟩, input)

/-- Template records up to the point where not even a record header fits. -/
def decodeTemplates (options : Bool) :
    (fuel : Nat) → List UInt8 → Option (List Template × List UInt8)
  | 0, _ => none
  | fuel + 1, input =>
      if input.length < 4 then some ([], input)
      else do
        let (template, input) ← decodeTemplate options input
        let (templates, padding) ← decodeTemplates options fuel input
        return (template :: templates, padding)

/-- The body of one set, read with the templates known so far. Padding has to
be zero bytes. -/
def decodeSetBody (alignment : Nat) (known : List Template) (id length : Nat)
    (body : List UInt8) : Option DecodedSet := do
  if id = 2 ∨ id = 3 then do
    let (templates, padding) ← decodeTemplates (id == 3) (body.length + 1) body
    if padding.all (· == 0) then return ⟨length, .templates templates, padding⟩ else none
  else do
    let template ← known.find? (·.id == id)
    let (records, padding) ← decodeRecords alignment template.fields (body.length + 1) body
    if padding.all (· == 0) then return ⟨length, .data id records, padding⟩ else none

/-- The templates known after a set; a later template replaces an earlier one. -/
def learn (known : List Template) : SetContent → List Template
  | .templates templates => templates ++ known
  | .data _ _ => known

/-- Sets up to the end of the message. Each takes at least four bytes. -/
def decodeSets (alignment : Nat) :
    (fuel : Nat) → List Template → List UInt8 → Option (List DecodedSet)
  | 0, _, _ => none
  | fuel + 1, known, input =>
      if input = [] then some []
      else do
        let (id, _) ← readWord 2 input
        let (length, _) ← readWord 2 (input.drop 2)
        if length < 4 then none
        else do
          let (set, input) ← readBytes length input
          let decoded ← decodeSetBody alignment known id length (set.drop 4)
          let sets ← decodeSets alignment fuel (learn known decoded.content) input
          return decoded :: sets

/-- A whole message whose sets are padded to a multiple of `alignment`, given the
templates known from earlier messages. The header's length field has to be the
number of bytes. -/
def decodeMessage (alignment : Nat) (known : List Template) (input : List UInt8) :
    Option Message := do
  let (version, body) ← readWord 2 input
  let (length, body) ← readWord 2 body
  let (exportTime, body) ← readWord 4 body
  let (sequence, body) ← readWord 4 body
  let (observationDomain, body) ← readWord 4 body
  if version = 10 ∧ length = input.length then do
    let sets ← decodeSets alignment (body.length + 1) known body
    return ⟨length, exportTime, sequence, observationDomain, sets⟩
  else none

/-- A value has the octets its field asks for; short values only. -/
def FieldFits (field : FieldSpecifier) (value : List UInt8) : Prop :=
  if field.length = variableLength then value.length < 255
  else value.length = field.length

def encodeField (field : FieldSpecifier) (value : List UInt8) : List UInt8 :=
  if field.length = variableLength then UInt8.ofNat value.length :: value else value

def encodeRecord (fields : List FieldSpecifier) (record : Record) : List UInt8 :=
  (List.zipWith encodeField fields record).flatten

theorem readWord_byte {value : Nat} (rest : List UInt8) (h : value < 2 ^ 8) :
    readWord 1 (UInt8.ofNat value :: rest) = some (value, rest) := by
  have hbytes : readBytes 1 (UInt8.ofNat value :: rest) = some ([UInt8.ofNat value], rest) := by
    simp [readBytes]
  simp only [readWord, hbytes, Option.map_some, bigEndian, List.foldl_cons, List.foldl_nil,
    UInt8.toNat_ofNat', Option.some.injEq, Prod.mk.injEq, and_true]
  omega

/-- A field that fits its specifier is read back, whether its length is fixed or stands in
front of it in one byte or in three, and nothing of what follows is read. -/
theorem decodeField_encodeField {field : FieldSpecifier} {value : List UInt8}
    (rest : List UInt8) (hfits : FieldFits field value) :
    decodeField field (encodeField field value ++ rest) = some (value, rest) := by
  unfold FieldFits at hfits
  unfold decodeField encodeField
  split at hfits
  · rename_i hvariable
    simp only [hvariable, if_true, List.cons_append]
    rw [readWord_byte _ (by omega)]
    simp only [Option.bind_eq_bind, Option.bind_some, hfits, if_true]
    exact readBytes_append rest rfl
  · rename_i hfixed
    simp only [hfixed, if_false]
    exact readBytes_append rest hfits

theorem decodeRecord_encodeRecord {fields : List FieldSpecifier} {record : Record}
    (rest : List UInt8) (hfits : List.Forall₂ FieldFits fields record) :
    decodeRecord fields (encodeRecord fields record ++ rest) = some (record, rest) := by
  induction hfits with
  | nil => rfl
  | cons hfield _ ih =>
      simp only [encodeRecord, List.zipWith_cons_cons, List.flatten_cons,
        List.append_assoc] at ih ⊢
      simp only [decodeRecord, decodeField_encodeField _ hfield, Option.bind_eq_bind,
        Option.bind_some, ih]
      rfl

/-- No record is shorter than the shortest one that its template allows, so the decoder's test
for padding never takes a record for padding. -/
private theorem minimumLength_le {fields : List FieldSpecifier} {record : Record}
    (hfits : List.Forall₂ FieldFits fields record) :
    minimumLength fields ≤ (encodeRecord fields record).length := by
  induction hfits with
  | nil => exact Nat.zero_le _
  | @cons field value fields record hfield _ ih =>
      simp only [minimumLength, encodeRecord, List.map_cons, List.sum_cons,
        List.zipWith_cons_cons, List.flatten_cons, List.length_append] at ih ⊢
      have hhead : (if field.length = variableLength then 1 else field.length) ≤
          (encodeField field value).length := by
        unfold FieldFits at hfield
        unfold encodeField
        split at hfield <;> rename_i hlength
        · simp [hlength]
        · simp [hlength, hfield]
      omega

/-- Encoded records, none of them so short that it could pass for padding,
followed by padding decode to the records and that padding. -/
theorem decodeRecords_encodeRecords {alignment : Nat} {fields : List FieldSpecifier}
    {records : List Record} {padding : List UInt8}
    (hfits : ∀ record ∈ records, List.Forall₂ FieldFits fields record)
    (hlong : ∀ record ∈ records, alignment ≤ (encodeRecord fields record).length)
    (hpadding : isPadding alignment fields padding = true) {fuel : Nat}
    (hfuel : records.length < fuel) :
    decodeRecords alignment fields fuel
        (records.flatMap (encodeRecord fields) ++ padding) = some (records, padding) := by
  induction records generalizing fuel with
  | nil =>
      obtain ⟨fuel, rfl⟩ : ∃ n, fuel = n + 1 := ⟨fuel - 1, by omega⟩
      simp [decodeRecords, hpadding]
  | cons record records ih =>
      obtain ⟨fuel, rfl⟩ : ∃ n, fuel = n + 1 :=
        ⟨fuel - 1, by simp only [List.length_cons] at hfuel; omega⟩
      have hrecord := hfits record List.mem_cons_self
      have hdata : isPadding alignment fields (encodeRecord fields record ++
          (records.flatMap (encodeRecord fields) ++ padding)) = false := by
        have hleast := minimumLength_le hrecord
        have halign := hlong record List.mem_cons_self
        simp only [isPadding, List.length_append, Bool.or_eq_false_iff,
          decide_eq_false_iff_not, Bool.and_eq_false_iff]
        exact ⟨by omega, Or.inl (by omega)⟩
      have hmore : records.length < fuel := by simpa using hfuel
      have hrest := ih (fun r hr => hfits r (List.mem_cons_of_mem _ hr))
        (fun r hr => hlong r (List.mem_cons_of_mem _ hr)) hmore
      simp only [List.flatMap_cons, List.append_assoc, decodeRecords, hdata,
        Bool.false_eq_true, if_false, decodeRecord_encodeRecord _ hrecord,
        Option.bind_eq_bind, Option.bind_some, hrest]
      rfl

/-- The body of a template set does not depend on the templates known. -/
theorem decodeSetBody_templates {alignment : Nat} {known : List Template}
    {id length padding : Nat} {body : List UInt8} {templates : List Template}
    (hid : id = 2 ∨ id = 3)
    (htemplates : decodeTemplates (id == 3) (body.length + 1) body =
      some (templates, zeros padding)) :
    decodeSetBody alignment known id length body =
      some ⟨length, .templates templates, zeros padding⟩ := by
  have hzeros : (zeros padding).all (· == 0) = true := by simp [zeros]
  simp only [decodeSetBody, hid, if_true, htemplates, Option.bind_eq_bind, Option.bind_some,
    hzeros]
  rfl

private theorem length_le_encodeRecords {fields : List FieldSpecifier}
    {records : List Record}
    (hnonempty : ∀ record ∈ records, 0 < (encodeRecord fields record).length) :
    records.length ≤ (records.flatMap (encodeRecord fields)).length := by
  induction records with
  | nil => exact Nat.zero_le _
  | cons record records ih =>
      have hhead := hnonempty record List.mem_cons_self
      have htail := ih fun r hr => hnonempty r (List.mem_cons_of_mem _ hr)
      simp only [List.flatMap_cons, List.length_append, List.length_cons]
      omega

/-- The body of a data set is read by the template of its identifier. -/
theorem decodeSetBody_data {alignment : Nat} {known : List Template} {template : Template}
    {id length padding : Nat} {records : List Record}
    (hid : id ≠ 2 ∧ id ≠ 3) (htemplate : known.find? (·.id == id) = some template)
    (hfits : ∀ record ∈ records, List.Forall₂ FieldFits template.fields record)
    (hlong : ∀ record ∈ records, alignment ≤ (encodeRecord template.fields record).length)
    (hpadding : padding < alignment) :
    decodeSetBody alignment known id length
        (records.flatMap (encodeRecord template.fields) ++ zeros padding) =
      some ⟨length, .data id records, zeros padding⟩ := by
  have hzeros : (zeros padding).all (· == 0) = true := by simp [zeros]
  have hpad : isPadding alignment template.fields (zeros padding) = true := by
    simp [isPadding, hzeros, hpadding]
  have hcount : records.length < (records.flatMap (encodeRecord template.fields) ++
      zeros padding).length + 1 := by
    have hnonempty : ∀ record ∈ records,
        0 < (encodeRecord template.fields record).length :=
      fun record hrecord => Nat.lt_of_lt_of_le (by omega) (hlong record hrecord)
    have hle := length_le_encodeRecords hnonempty
    rw [List.length_append]
    omega
  have hrecords := decodeRecords_encodeRecords hfits hlong hpad hcount
  have hdata : ¬ (id = 2 ∨ id = 3) := by omega
  simp only [decodeSetBody, hdata, if_false, htemplate, Option.bind_eq_bind,
    Option.bind_some, hrecords, hzeros, if_true]
  rfl

/-- A set as bytes: identifier, length and body. -/
def encodeSet (id : Nat) (body : List UInt8) : List UInt8 :=
  u16 id ++ u16 (body.length + 4) ++ body

theorem encodeSet_length (id : Nat) (body : List UInt8) :
    (encodeSet id body).length = body.length + 4 := by
  simp [encodeSet]
  omega

/-- Decoding a set in front of further sets. -/
theorem decodeSets_cons {alignment : Nat} {known : List Template} {id : Nat}
    {body rest : List UInt8} {decoded : DecodedSet} {sets : List DecodedSet} {fuel : Nat}
    (hid : id < 2 ^ 16) (hlength : body.length + 4 < 2 ^ 16)
    (hset : decodeSetBody alignment known id (body.length + 4) body = some decoded)
    (hrest : decodeSets alignment fuel (learn known decoded.content) rest = some sets) :
    decodeSets alignment (fuel + 1) known (encodeSet id body ++ rest) =
      some (decoded :: sets) := by
  have hne : ¬ encodeSet id body ++ rest = [] := by simp [encodeSet, u16]
  have hword : readWord 2 (encodeSet id body ++ rest) =
      some (id, u16 (body.length + 4) ++ body ++ rest) := by
    simp only [encodeSet, List.append_assoc]
    exact readWord_u16 _ hid
  have hlen : readWord 2 ((encodeSet id body ++ rest).drop 2) =
      some (body.length + 4, body ++ rest) := by
    have hdrop : (encodeSet id body ++ rest).drop 2 =
        u16 (body.length + 4) ++ (body ++ rest) := by
      simp [encodeSet, u16]
    rw [hdrop]
    exact readWord_u16 _ hlength
  have hbody : (encodeSet id body).drop 4 = body := by simp [encodeSet, u16]
  simp only [decodeSets, hne, if_false, hword, hlen, Option.bind_eq_bind, Option.bind_some,
    show ¬ body.length + 4 < 4 by omega, readBytes_append rest (encodeSet_length id body),
    hbody, hset, hrest]
  rfl

/-- Decoding a padded data set in front of further sets. -/
theorem decodeSets_data_cons {alignment : Nat} (known : List Template) (template : Template)
    {id padding : Nat} {records : List Record} {rest : List UInt8} {sets : List DecodedSet}
    {fuel : Nat} (hid : id ≠ 2 ∧ id ≠ 3 ∧ id < 2 ^ 16)
    (htemplate : known.find? (·.id == id) = some template)
    (hfits : ∀ record ∈ records, List.Forall₂ FieldFits template.fields record)
    (hlong : ∀ record ∈ records, alignment ≤ (encodeRecord template.fields record).length)
    (hpadding : padding < alignment)
    (hlength : (encodeSet id (records.flatMap (encodeRecord template.fields) ++
      zeros padding)).length < 2 ^ 16)
    (hrest : decodeSets alignment fuel known rest = some sets) :
    decodeSets alignment (fuel + 1) known
        (encodeSet id (records.flatMap (encodeRecord template.fields) ++ zeros padding) ++ rest) =
      some (⟨(encodeSet id (records.flatMap (encodeRecord template.fields) ++
        zeros padding)).length, .data id records, zeros padding⟩ :: sets) := by
  rw [encodeSet_length] at hlength ⊢
  exact decodeSets_cons hid.2.2 hlength
    (decodeSetBody_data ⟨hid.1, hid.2.1⟩ htemplate hfits hlong hpadding) hrest

theorem decodeSets_nil (alignment : Nat) (known : List Template) (fuel : Nat) :
    decodeSets alignment (fuel + 1) known [] = some [] := by
  simp [decodeSets]

/-- The message header as bytes. -/
def encodeHeader (length exportTime sequence observationDomain : Nat) : List UInt8 :=
  u16 10 ++ u16 length ++ u32 exportTime ++ u32 sequence ++ u32 observationDomain

theorem encodeHeader_length (length exportTime sequence observationDomain : Nat) :
    (encodeHeader length exportTime sequence observationDomain).length = 16 := rfl

/-- A message decodes to its header fields and its decoded sets. -/
theorem decodeMessage_encode {alignment : Nat} {known : List Template}
    {exportTime sequence observationDomain : Nat} {body : List UInt8}
    {sets : List DecodedSet}
    (htime : exportTime < 2 ^ 32) (hsequence : sequence < 2 ^ 32)
    (hdomain : observationDomain < 2 ^ 32) (hlength : body.length + 16 < 2 ^ 16)
    (hsets : decodeSets alignment (body.length + 1) known body = some sets) :
    decodeMessage alignment known
      (encodeHeader (body.length + 16) exportTime sequence observationDomain ++ body) =
      some ⟨body.length + 16, exportTime, sequence, observationDomain, sets⟩ := by
  have hsize : body.length + 16 =
      (encodeHeader (body.length + 16) exportTime sequence observationDomain ++ body).length := by
    rw [List.length_append, encodeHeader_length]
    omega
  unfold decodeMessage
  rw [← hsize]
  simp only [encodeHeader, List.append_assoc, readWord_u16 _ (show 10 < 2 ^ 16 by decide),
    readWord_u16 _ hlength, readWord_u32 _ htime, readWord_u32 _ hsequence,
    readWord_u32 _ hdomain, Option.bind_eq_bind, Option.bind_some, and_self, if_true, hsets]
  rfl

end AirspyhfWsprd.Library.Ipfix
