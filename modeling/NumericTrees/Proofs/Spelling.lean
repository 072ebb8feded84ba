import Mathlib.Data.List.Forall2
import Mathlib.Data.Set.Basic
import NumericTrees.Proofs.NumberSpelling

/-!
# Spellings of items

The byte form of an item is a row of parts, some of them numbers of variable length. A reader takes
exactly the bytes that spell these parts, and it refuses bytes that end within a spelling because
they end. Both pass from the readers of the parts to the reader of the whole.
-/

namespace NumericTrees

open Wire

/-- A part of the byte form of an item. -/
inductive Part where
  /-- A number of variable length, for a reader of at most `width` bits. -/
  | varint (width n : Nat)
  | fixed (bytes : List UInt8)

namespace Part

def encode : Part → List UInt8
  | varint _ n => Varint.encode n
  | fixed bytes => bytes

def Spelled : Part → List UInt8 → Prop
  | varint width n, bytes => Varint.Spells width n bytes
  | fixed written, bytes => bytes = written

/-- The part is a number that ends in a zero byte behind a byte that goes on. -/
def Padded : Part → List UInt8 → Prop
  | varint _ _, bytes => Varint.Padded bytes
  | fixed _, _ => False

variable {part : Part} {bytes : List UInt8}

lemma Spelled.encode_spec (h : part.Spelled bytes) :
    part.encode.length ≤ bytes.length ∧ (part.encode = bytes ↔ ¬ part.Padded bytes) := by
  cases part with
  | varint width n => exact Varint.Spells.encode_spec h
  | fixed written =>
    obtain rfl : bytes = written := h
    exact ⟨le_rfl, iff_of_true rfl not_false⟩

lemma Spelled.encode (h : part.Spelled bytes) : part.Spelled part.encode := by
  cases part with
  | varint width n => exact Varint.spells_encode (Varint.Spells.width_pos h) h.lt
  | fixed written => rfl

end Part

/-- The pieces spell the parts, one by one. -/
def Spells (parts : List Part) (pieces : List (List UInt8)) : Prop :=
  List.Forall₂ Part.Spelled parts pieces

namespace Spells

variable {parts parts' : List Part} {pieces pieces' : List (List UInt8)}

lemma append (h : Spells parts pieces) (h' : Spells parts' pieces') :
    Spells (parts ++ parts') (pieces ++ pieces') := List.rel_append h h'

lemma exists_append (h : Spells (parts ++ parts') pieces) :
    ∃ front rest, pieces = front ++ rest ∧ Spells parts front ∧ Spells parts' rest := by
  induction parts generalizing pieces with
  | nil => exact ⟨[], pieces, rfl, .nil, h⟩
  | cons part parts ih =>
    obtain ⟨piece, pieces, hpiece, hpieces, rfl⟩ := List.forall₂_cons_left_iff.mp h
    obtain ⟨front, rest, rfl, hfront, hrest⟩ := ih hpieces
    exact ⟨piece :: front, rest, rfl, .cons hpiece hfront, hrest⟩

lemma encode (h : Spells parts pieces) : Spells parts (parts.map Part.encode) := by
  induction h with
  | nil => exact .nil
  | cons hpiece _ ih => exact .cons hpiece.encode ih

/-- Since no part is written with more bytes than any spelling of it has, a row of parts is written
as it is spelled only where every part is. -/
lemma encode_spec (h : Spells parts pieces) :
    (parts.map Part.encode).flatten.length ≤ pieces.flatten.length ∧
      ((parts.map Part.encode).flatten = pieces.flatten ↔
        ∀ piece ∈ parts.zip pieces, ¬ piece.1.Padded piece.2) := by
  induction h with
  | nil => simp
  | @cons part piece parts pieces hpiece _ ih =>
    obtain ⟨hle, hiff⟩ := hpiece.encode_spec
    obtain ⟨hrestle, hrestiff⟩ := ih
    rw [List.map_cons, List.flatten_cons, List.flatten_cons, List.length_append,
      List.length_append, List.zip_cons_cons, List.forall_mem_cons, ← hiff, ← hrestiff]
    refine ⟨Nat.add_le_add hle hrestle, fun hbytes => ?_, ?_⟩
    · have hlength := congrArg List.length hbytes
      rw [List.length_append, List.length_append] at hlength
      exact List.append_inj hbytes (by omega)
    · rintro ⟨hfirst, hrest⟩
      rw [hfirst, hrest]

end Spells

/-- The reader takes the spellings of the items and nothing else, and where bytes end within a
spelling it says so. -/
structure Accepts {α : Type} (read : Reader α) (items : Set α) (parts : α → List Part) : Prop where
  spelled : ∀ bytes x rest, read bytes = .ok (x, rest) →
    x ∈ items ∧ ∃ pieces, Spells (parts x) pieces ∧ bytes = pieces.flatten ++ rest
  reads : ∀ x ∈ items, ∀ pieces, Spells (parts x) pieces → Reads read pieces.flatten x
  ends : ∀ x ∈ items, ∀ pieces, Spells (parts x) pieces →
    ∀ front, front <+: pieces.flatten → front ≠ pieces.flatten →
      read front = .error .unexpectedEnd

namespace Accepts

variable {α β : Type} {read : Reader α} {next : α → Reader β} {items : Set α} {whole : Set β}
  {parts : α → List Part} {parts'' : β → List Part}

lemma prefix_append_cases {front bytes bytes' : List UInt8} (hle : front <+: bytes ++ bytes')
    (hne : front ≠ bytes ++ bytes') :
    (front <+: bytes ∧ front ≠ bytes) ∨
      ∃ rest, front = bytes ++ rest ∧ rest <+: bytes' ∧ rest ≠ bytes' := by
  rcases Nat.lt_or_ge front.length bytes.length with hshort | hlong
  · refine .inl ⟨List.prefix_of_prefix_length_le hle (List.prefix_append _ _) hshort.le, ?_⟩
    rintro rfl
    exact Nat.lt_irrefl _ hshort
  · obtain ⟨rest, rfl⟩ := List.prefix_of_prefix_length_le (List.prefix_append _ _) hle hlong
    refine .inr ⟨rest, rfl, (List.prefix_append_right_inj bytes).mp hle, ?_⟩
    rintro rfl
    exact hne rfl

/-- One reader after another takes the spellings of one item after those of another. -/
lemma bind (h : Accepts read items parts) (items' : α → Set β) (parts' : β → List Part)
    (hnext : ∀ a ∈ items, Accepts (next a) (items' a) parts')
    (hwhole : ∀ b, b ∈ whole ↔ ∃ a ∈ items, b ∈ items' a)
    (hparts : ∀ a ∈ items, ∀ b ∈ items' a, parts'' b = parts a ++ parts' b) :
    Accepts (read >>= next) whole parts'' := by
  have hbind (bytes : List UInt8) :
      (read >>= next) bytes = (read bytes).bind fun p => next p.1 p.2 := rfl
  constructor
  case spelled =>
    intro bytes b rest hb
    rw [hbind] at hb
    cases hread : read bytes with
    | error e =>
      rw [hread] at hb
      cases hb
    | ok p =>
      obtain ⟨a, mid⟩ := p
      rw [hread] at hb
      obtain ⟨ha, pieces, hpieces, rfl⟩ := h.spelled _ _ _ hread
      obtain ⟨hitem, pieces', hpieces', rfl⟩ := (hnext a ha).spelled _ _ _ hb
      refine ⟨(hwhole b).mpr ⟨a, ha, hitem⟩, pieces ++ pieces', ?_, ?_⟩
      · rw [hparts a ha b hitem]
        exact hpieces.append hpieces'
      · rw [List.flatten_append, List.append_assoc]
  case reads =>
    intro b hb pieces hpieces
    obtain ⟨a, ha, hb⟩ := (hwhole b).mp hb
    rw [hparts a ha b hb] at hpieces
    obtain ⟨front, rest, rfl, hfront, hrest⟩ := hpieces.exists_append
    rw [List.flatten_append]
    exact (h.reads a ha front hfront).bind ((hnext a ha).reads b hb rest hrest)
  case ends =>
    intro b hb pieces hpieces short hle hne
    obtain ⟨a, ha, hb⟩ := (hwhole b).mp hb
    rw [hparts a ha b hb] at hpieces
    obtain ⟨front, rest, rfl, hfront, hrest⟩ := hpieces.exists_append
    rw [List.flatten_append] at hle hne
    rw [hbind]
    obtain ⟨hle, hne⟩ | ⟨short, rfl, hle, hne⟩ := prefix_append_cases hle hne
    · rw [h.ends a ha front hfront short hle hne]
      rfl
    · rw [h.reads a ha front hfront short]
      exact (hnext a ha).ends b hb rest hrest short hle hne

lemma pure (b : β) (hwhole : ∀ c, c ∈ whole ↔ c = b) (hparts : parts'' b = []) :
    Accepts (Pure.pure b) whole parts'' := by
  constructor
  case spelled =>
    intro bytes c rest hc
    cases hc
    refine ⟨(hwhole b).mpr rfl, [], ?_, rfl⟩
    rw [hparts]
    exact .nil
  case reads =>
    intro c hc pieces hpieces
    obtain rfl := (hwhole c).mp hc
    rw [hparts] at hpieces
    cases hpieces
    exact Reads.pure c
  case ends =>
    intro c hc pieces hpieces front hle hne
    obtain rfl := (hwhole c).mp hc
    rw [hparts] at hpieces
    cases hpieces
    exact absurd (List.prefix_nil.mp hle) hne

lemma throw (e : DecodeError) (hwhole : ∀ c, c ∉ whole) :
    Accepts (MonadExcept.throw e : Reader β) whole parts'' := by
  constructor
  case spelled =>
    intro bytes c rest hc
    cases hc
  case reads => exact fun c hc => absurd hc (hwhole c)
  case ends => exact fun c hc => absurd hc (hwhole c)

/-- An item made from what was read is spelled as that is. -/
lemma finish {f : α → β} (h : Accepts read items parts)
    (hnext : ∀ a ∈ items, next a = Pure.pure (f a))
    (hwhole : ∀ b, b ∈ whole ↔ ∃ a ∈ items, b = f a)
    (hparts : ∀ a ∈ items, parts'' (f a) = parts a) : Accepts (read >>= next) whole parts'' := by
  refine h.bind (fun a => {f a}) (fun _ => []) ?_ hwhole ?_
  · intro a ha
    rw [hnext a ha]
    exact pure (f a) (fun c => Set.mem_singleton_iff) rfl
  · rintro a ha b rfl
    rw [hparts a ha, List.append_nil]

end Accepts

namespace Wire

lemma accepts_varint {width : Nat} (hwidth : 0 < width) :
    Accepts (Varint.read width) {n | n < Nat.pow 2 width} fun n => [.varint width n] := by
  constructor
  case spelled =>
    intro bytes n rest hn
    obtain ⟨front, hfront, rfl⟩ := Varint.exists_spells_of_decode hwidth hn
    exact ⟨hfront.lt, [front], .cons hfront .nil, by rw [List.flatten_singleton]⟩
  case reads =>
    intro n _ pieces hpieces rest
    obtain ⟨front, _, hfront, hnil, rfl⟩ := List.forall₂_cons_left_iff.mp hpieces
    cases hnil
    rw [List.flatten_singleton]
    exact hfront.decode_append
  case ends =>
    intro n _ pieces hpieces short hle hne
    obtain ⟨front, _, hfront, hnil, rfl⟩ := List.forall₂_cons_left_iff.mp hpieces
    cases hnil
    rw [List.flatten_singleton] at hle hne
    exact hfront.decode_prefix hle hne

lemma accepts_take (count : Nat) :
    Accepts (Reader.take count) {bytes | bytes.length = count} fun bytes => [.fixed bytes] := by
  constructor
  case spelled =>
    intro bytes front rest hfront
    rw [Reader.take] at hfront
    split at hfront
    · next hle =>
      cases hfront
      refine ⟨List.length_take_of_le hle, [bytes.take count], .cons rfl .nil, ?_⟩
      rw [List.flatten_singleton, List.take_append_drop]
    · cases hfront
  case reads =>
    rintro bytes rfl pieces hpieces
    obtain ⟨front, _, rfl, hnil, rfl⟩ := List.forall₂_cons_left_iff.mp hpieces
    cases hnil
    rw [List.flatten_singleton]
    exact reads_take front
  case ends =>
    rintro bytes rfl pieces hpieces short hle hne
    obtain ⟨front, _, rfl, hnil, rfl⟩ := List.forall₂_cons_left_iff.mp hpieces
    cases hnil
    rw [List.flatten_singleton] at hle hne
    have hshort : ¬ front.length ≤ short.length := fun hlong => hne (hle.eq_of_length_le hlong)
    rw [Reader.take, if_neg hshort]

lemma accepts_variant : Accepts readVariant {n | n < Nat.pow 2 32} fun n => [.varint 32 n] :=
  accepts_varint (by decide)

lemma accepts_integer {width : Nat} (hwidth : 0 < width) :
    Accepts (readInteger width) {n | zigzag n < Nat.pow 2 width}
      fun n => [.varint width (zigzag n)] := by
  have hread : readInteger width = Varint.read width >>= fun n => pure (unzigzag n) :=
    (bind_pure_comp _ _).symm
  rw [hread]
  refine (accepts_varint hwidth).finish (fun n _ => rfl) (fun n => ?_) (fun n _ => ?_)
  · constructor
    · exact fun hn => ⟨zigzag n, hn, (unzigzag_zigzag n).symm⟩
    · rintro ⟨place, hplace, rfl⟩
      change zigzag (unzigzag place) < _
      rwa [zigzag_unzigzag]
  · rw [zigzag_unzigzag]

lemma littleEndian_ofLittleEndian (bytes : List UInt8) :
    littleEndian bytes.length (ofLittleEndian bytes) = bytes := by
  induction bytes with
  | nil => rfl
  | cons b bytes ih =>
    have hlt := b.toNat_lt
    have hbyte : UInt8.ofNat (b.toNat + 256 * ofLittleEndian bytes) = b := by
      apply UInt8.toNat_inj.mp
      rw [UInt8.toNat_ofNat']
      omega
    have hrest : (b.toNat + 256 * ofLittleEndian bytes) / 256 = ofLittleEndian bytes := by omega
    rw [List.length_cons, ofLittleEndian, littleEndian, hbyte, hrest, ih]

lemma ofLittleEndian_lt (bytes : List UInt8) :
    ofLittleEndian bytes < Nat.pow 256 bytes.length := by
  induction bytes with
  | nil => exact Nat.one_pos
  | cons b bytes ih =>
    have hlt := b.toNat_lt
    have hpow : Nat.pow 256 (bytes.length + 1) = Nat.pow 256 bytes.length * 256 := rfl
    rw [ofLittleEndian, List.length_cons, hpow]
    omega

end Wire

lemma Binary.toBits_ofBits {f : Format} {bits : Nat} (h : bits < 2 * f.codes) :
    (Binary.ofBits bits : Binary f).toBits = bits := by
  rcases Nat.lt_or_ge bits f.codes with hlt | hge
  · simp [ofBits, toBits, Nat.div_eq_of_lt hlt, Nat.mod_eq_of_lt hlt]
  · obtain ⟨code, rfl⟩ := Nat.exists_eq_add_of_le hge
    have hlt : code < f.codes := by omega
    have hdiv : (f.codes + code) / f.codes = 1 := by
      rw [Nat.add_div_left _ (by omega), Nat.div_eq_of_lt hlt]
    simp [ofBits, toBits, hdiv, Nat.mod_eq_of_lt hlt]

namespace Wire

lemma accepts_byte : Accepts Reader.byte Set.univ fun b => [.fixed [b]] := by
  have hread : Reader.byte = Reader.take 1 >>= fun bytes => pure (bytes.headD 0) := by
    funext bytes
    cases bytes <;> rfl
  rw [hread]
  refine (accepts_take 1).finish (fun _ _ => rfl) (fun b => ?_) (fun bytes hone => ?_)
  · exact iff_of_true trivial ⟨[b], rfl, rfl⟩
  · obtain ⟨b, rfl⟩ := List.length_eq_one_iff.mp hone
    rfl

lemma accepts_word {f : Format} (h : Nat.pow 256 f.wordBytes = 2 * f.codes) :
    Accepts (readWord f) Set.univ fun x => [.fixed (encodeWord x)] := by
  refine (accepts_take f.wordBytes).finish (fun _ _ => rfl) (fun x => ?_) (fun bytes hlength => ?_)
  · refine iff_of_true trivial ⟨encodeWord x, length_littleEndian _ _, ?_⟩
    have hlt : x.toBits < Nat.pow 256 f.wordBytes := h ▸ x.toBits_lt
    rw [encodeWord, ofLittleEndian_littleEndian _ _ hlt, Binary.ofBits_toBits]
  · have hlt := ofLittleEndian_lt bytes
    have hlength : bytes.length = f.wordBytes := hlength
    rw [hlength, h] at hlt
    rw [encodeWord, Binary.toBits_ofBits hlt, ← hlength, littleEndian_ofLittleEndian]

lemma accepts_bool : Accepts readBool Set.univ fun b => [.fixed (encodeBool b)] := by
  refine accepts_byte.bind (fun byte => {b | encodeBool b = [byte]}) (fun _ => [])
    (fun byte _ => ?_) (fun b => ?_) (fun byte _ b hb => ?_)
  · by_cases hzero : byte = 0
    · subst hzero
      exact .pure false (by decide) rfl
    · by_cases hone : byte = 1
      · subst hone
        exact .pure true (by decide) rfl
      · rw [if_neg hzero, if_neg hone]
        refine .throw .badBool (fun b hb => ?_)
        cases b with
        | false => exact hzero (List.cons.inj hb).1.symm
        | true => exact hone (List.cons.inj hb).1.symm
  · exact iff_of_true trivial ⟨_, trivial, rfl⟩
  · rw [List.append_nil, hb]

lemma accepts_text :
    Accepts readText {s | (Text.utf8 s).length < Nat.pow 2 64}
      fun s => [.varint 64 (Text.utf8 s).length, .fixed (Text.utf8 s)] := by
  refine (accepts_varint (by decide)).bind (fun length => {s | (Text.utf8 s).length = length})
    (fun s => [.fixed (Text.utf8 s)]) (fun length _ => ?_) (fun s => ?_) ?_
  · refine (accepts_take length).bind (fun bytes => {s | Text.utf8 s = bytes}) (fun _ => [])
      (fun bytes _ => ?_) (fun s => ?_) ?_
    · cases htext : Text.ofUtf8? bytes with
      | none =>
        refine .throw .badText ?_
        rintro s rfl
        rw [Text.ofUtf8?_utf8] at htext
        cases htext
      | some s =>
        have hbytes := Text.utf8_of_ofUtf8? htext
        refine .pure s (fun t => ⟨fun ht => Text.utf8_injective (ht.trans hbytes.symm), ?_⟩) rfl
        rintro rfl
        exact hbytes
    · constructor
      · exact fun hs => ⟨Text.utf8 s, hs, rfl⟩
      · rintro ⟨bytes, hbytes, rfl⟩
        exact hbytes
    · rintro bytes _ s rfl
      rfl
  · constructor
    · exact fun hs => ⟨_, hs, rfl⟩
    · rintro ⟨length, hlength, rfl⟩
      exact hlength
  · rintro length _ s rfl
    rfl

end Wire

/-! ### Kinds, types, numbers and values -/

namespace Kind

def parts (kind : Kind) : List Part := [.varint 32 kind.rank]

lemma accepts : Accepts read Set.univ parts := by
  refine accepts_variant.bind (fun index => {kind | kind.rank = index}) (fun _ => [])
    (fun index _ => ?_) (fun kind => ?_) ?_
  · match index with
    | 0 => exact .pure int32 (by rintro (_ | _ | _ | _) <;> decide) rfl
    | 1 => exact .pure int64 (by rintro (_ | _ | _ | _) <;> decide) rfl
    | 2 => exact .pure float32 (by rintro (_ | _ | _ | _) <;> decide) rfl
    | 3 => exact .pure float64 (by rintro (_ | _ | _ | _) <;> decide) rfl
    | index + 4 => exact .throw .unknownVariant (by rintro (_ | _ | _ | _) hkind <;> cases hkind)
  · exact iff_of_true trivial ⟨kind.rank, by cases kind <;> decide, rfl⟩
  · rintro index _ kind rfl
    rfl

end Kind

namespace ValueType

/-- The number of an alternative. -/
def variant : ValueType → Nat
  | numeric _ => 0
  | bool => 1
  | str => 2

/-- The parts behind the number of the alternative. -/
def content : ValueType → List Part
  | numeric kind => kind.parts
  | bool | str => []

def parts (type : ValueType) : List Part := .varint 32 type.variant :: type.content

lemma variant_lt (type : ValueType) : type.variant < 3 := by
  cases type <;> simp [variant]

lemma accepts : Accepts read Set.univ parts := by
  refine accepts_variant.bind (fun index => {type | type.variant = index}) content
    (fun index _ => ?_) (fun type => ?_) ?_
  · match index with
    | 0 =>
      refine Kind.accepts.finish (fun _ _ => rfl) (fun type => ?_) (fun _ _ => rfl)
      cases type <;> simp [variant]
    | 1 => exact .pure bool (fun type => by cases type <;> simp [variant]) rfl
    | 2 => exact .pure str (fun type => by cases type <;> simp [variant]) rfl
    | index + 3 =>
      refine .throw .unknownVariant fun type htype => ?_
      have hlt := htype ▸ type.variant_lt
      omega
  · exact iff_of_true trivial ⟨type.variant, type.variant_lt.trans (by decide), rfl⟩
  · rintro index _ type rfl
    rfl

end ValueType

namespace Number

/-- The number of an alternative. -/
def variant : Number → Nat
  | int32 _ => 0
  | int64 _ => 1
  | float32 _ => 2
  | float64 _ => 3

/-- The parts behind the number of the alternative. -/
def content : Number → List Part
  | int32 n => [.varint 32 (zigzag n.toInt)]
  | int64 n => [.varint 64 (zigzag n.toInt)]
  | float32 x => [.fixed (encodeWord x)]
  | float64 x => [.fixed (encodeWord x)]

def parts (n : Number) : List Part := .varint 32 n.variant :: n.content

lemma variant_lt (n : Number) : n.variant < 4 := by
  cases n <;> simp [variant]

lemma bounds_of_zigzag_lt {n : Int} {half : Nat} (h : zigzag n < 2 * half) :
    -(half : Int) ≤ n ∧ n < half := by
  unfold zigzag at h
  split at h <;> omega

/-- The integers of a width are spelled by their places in the order of zigzags. -/
lemma accepts_twosComplement (half : Nat) {width : Nat} (hwidth : 0 < width)
    (hhalf : Nat.pow 2 width = 2 * half) {f : Int → Number} {whole : Set Number}
    (hwhole : ∀ n ∈ whole, ∃ i : Int, -(half : Int) ≤ i ∧ i < half ∧ n = f i)
    (hf : ∀ i, f i ∈ whole) (hcontent : ∀ i : Int, -(half : Int) ≤ i → i < half →
      (f i).content = [.varint width (zigzag i)]) :
    Accepts (readInteger width >>= fun i => pure (f i)) whole content := by
  refine (accepts_integer hwidth).finish (fun _ _ => rfl) (fun n => ?_) (fun i hi => ?_)
  · constructor
    · intro hn
      obtain ⟨i, hlow, hhigh, rfl⟩ := hwhole n hn
      refine ⟨i, ?_, rfl⟩
      change zigzag i < Nat.pow 2 width
      rw [hhalf]
      exact zigzag_lt half hlow hhigh
    · rintro ⟨i, -, rfl⟩
      exact hf i
  · obtain ⟨hlow, hhigh⟩ := bounds_of_zigzag_lt (hhalf ▸ hi)
    exact hcontent i hlow hhigh

lemma accepts : Accepts read Set.univ parts := by
  refine accepts_variant.bind (fun index => {n | n.variant = index}) content (fun index _ => ?_)
    (fun n => ?_) ?_
  · match index with
    | 0 =>
      refine accepts_twosComplement (2 ^ 31) (by decide) rfl (fun n hn => ?_) (fun _ => rfl)
        fun i hlow hhigh => by rw [content, Int32.toInt_ofInt_of_le hlow hhigh]
      cases n with
      | int32 n => exact ⟨n.toInt, n.le_toInt, n.toInt_lt, by rw [Int32.ofInt_toInt]⟩
      | int64 _ | float32 _ | float64 _ => cases hn
    | 1 =>
      refine accepts_twosComplement (2 ^ 63) (by decide) rfl (fun n hn => ?_) (fun _ => rfl)
        fun i hlow hhigh => by rw [content, Int64.toInt_ofInt_of_le hlow hhigh]
      cases n with
      | int64 n => exact ⟨n.toInt, n.le_toInt, n.toInt_lt, by rw [Int64.ofInt_toInt]⟩
      | int32 _ | float32 _ | float64 _ => cases hn
    | 2 =>
      refine (accepts_word (by decide)).finish (fun _ _ => rfl) (fun n => ?_) (fun _ _ => rfl)
      cases n <;> simp [variant]
    | 3 =>
      refine (accepts_word (by decide)).finish (fun _ _ => rfl) (fun n => ?_) (fun _ _ => rfl)
      cases n <;> simp [variant]
    | index + 4 =>
      refine .throw .unknownVariant fun n hn => ?_
      have hlt := hn ▸ n.variant_lt
      omega
  · exact iff_of_true trivial ⟨n.variant, n.variant_lt.trans (by decide), rfl⟩
  · rintro index _ n rfl
    rfl

end Number

namespace Value

/-- The number of an alternative. -/
def variant : Value → Nat
  | number _ => 0
  | bool _ => 1
  | str _ => 2

/-- The parts behind the number of the alternative. -/
def content : Value → List Part
  | number n => n.parts
  | bool b => [.fixed (encodeBool b)]
  | str s => [.varint 64 (Text.utf8 s).length, .fixed (Text.utf8 s)]

def parts (v : Value) : List Part := .varint 32 v.variant :: v.content

lemma variant_lt (v : Value) : v.variant < 3 := by
  cases v <;> simp [variant]

lemma accepts : Accepts read {v | v.Fits} parts := by
  refine accepts_variant.bind (fun index => {v | v.variant = index ∧ v.Fits}) content
    (fun index _ => ?_) (fun v => ?_) ?_
  · match index with
    | 0 =>
      refine Number.accepts.finish (fun _ _ => rfl) (fun v => ?_) (fun _ _ => rfl)
      cases v <;> simp [variant, Fits]
    | 1 =>
      refine accepts_bool.finish (fun _ _ => rfl) (fun v => ?_) (fun _ _ => rfl)
      cases v <;> simp [variant, Fits]
    | 2 =>
      refine accepts_text.finish (fun _ _ => rfl) (fun v => ?_) (fun _ _ => rfl)
      cases v <;> simp [variant, Fits]
    | index + 3 =>
      refine .throw .unknownVariant fun v hv => ?_
      have hlt := hv.1 ▸ v.variant_lt
      omega
  · constructor
    · exact fun hv => ⟨v.variant, v.variant_lt.trans (by decide), rfl, hv⟩
    · rintro ⟨index, -, -, hv⟩
      exact hv
  · rintro index _ v ⟨rfl, -⟩
    rfl

end Value

/-! ### What is written -/

lemma Kind.encode_eq (kind : Kind) : kind.encode = (kind.parts.map Part.encode).flatten :=
  (List.append_nil _).symm

lemma ValueType.encode_eq (type : ValueType) :
    type.encode = (type.parts.map Part.encode).flatten := by
  cases type with
  | numeric kind =>
    rw [encode, kind.encode_eq]
    rfl
  | bool | str => exact (List.append_nil _).symm

lemma Number.encode_eq (n : Number) : n.encode = (n.parts.map Part.encode).flatten := by
  cases n <;> exact congrArg (encodeVariant _ ++ ·) (List.append_nil _).symm

lemma Value.encode_eq (v : Value) : v.encode = (v.parts.map Part.encode).flatten := by
  cases v with
  | number n =>
    rw [encode, n.encode_eq]
    rfl
  | bool b => exact congrArg (encodeVariant 1 ++ ·) (List.append_nil _).symm
  | str s =>
    change _ ++ (_ ++ _) = _ ++ (_ ++ (_ ++ []))
    rw [List.append_nil]
    rfl

end NumericTrees
