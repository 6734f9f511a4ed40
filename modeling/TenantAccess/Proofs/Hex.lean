import TenantAccess.Proofs.Success

/-!
# Hexadecimal text is faithful

A number is written in one way, and reading accepts just what is written in either case. Digits of one
width, highest first, are in the order of the numbers, so that identifiers, their bytes and their texts
are ordered alike (`Id.hex_faithful`).
-/

namespace TenantAccess

/-! ## Lists in order -/

section Lists

variable {α β : Type} [LT α] [LT β] {l l' r r' : List α} {f : α → β}

theorem append_lt_append (same : l.length = l'.length) (h : l < l') : l ++ r < l' ++ r' := by
  induction h with
  | nil => cases same
  | rel h => exact .rel h
  | cons _ ih => exact .cons (ih (Nat.succ.inj same))

theorem map_lt_map (mono : ∀ a ∈ l, ∀ b ∈ l', a < b → f a < f b) (h : l < l') :
    l.map f < l'.map f := by
  induction h with
  | nil => exact .nil
  | rel h => exact .rel (mono _ List.mem_cons_self _ List.mem_cons_self h)
  | cons _ ih =>
    exact .cons (ih fun a ha b hb => mono a (List.mem_cons_of_mem _ ha) b (List.mem_cons_of_mem _ hb))

end Lists

namespace Radix

variable {base width m n : Nat}

theorem digits_lt_digits (h : m < n) (bound : n < capacity base width) :
    digits base width m < digits base width n := by
  induction width generalizing m n with
  | zero =>
    have : n = 0 := Nat.lt_one_iff.1 bound
    omega
  | succ width ih =>
    have bound : n / base < capacity base width :=
      Nat.div_lt_of_lt_mul (by rwa [capacity, Nat.mul_comm] at bound)
    rw [digits, digits]
    -- the higher digits decide unless they are the same
    rcases Nat.lt_or_eq_of_le (Nat.div_le_div_right (Nat.le_of_lt h)) with lt | same
    · exact append_lt_append (by rw [length_digits, length_digits]) (ih lt bound)
    · have last : m % base < n % base := by
        have hm := Nat.div_add_mod m base
        have hn := Nat.div_add_mod n base
        rw [same] at hm
        omega
      rw [same]
      exact List.append_left_lt (.rel last)

/-- A digit of the squared base is two digits. -/
theorem digits_double (base width n : Nat) : digits base (2 * width) n =
    (digits (base * base) width n).flatMap fun d => [d / base, d % base] := by
  induction width generalizing n with
  | zero => rfl
  | succ width ih =>
    rw [Nat.mul_succ, digits, digits, digits, ih, List.flatMap_append, Nat.div_div_eq_div_mul,
      List.flatMap_singleton, Nat.mod_mul_right_div_self, Nat.mod_mul_right_mod, List.append_assoc]
    rfl

end Radix

/-! ## Digits -/

namespace Hex

open Text (hexLetter)

/-- The sixteen digits that are written. -/
def lowerDigits : List Char := "0123456789abcdef".toList

/-- The digits that are read. -/
def anyDigits : List Char := "0123456789abcdefABCDEF".toList

/-- The text consists of exactly as many digits. -/
def Written (count : Nat) (text : String) : Prop :=
  text.length = count ∧ text.toList ⊆ anyDigits

instance (count : Nat) (text : String) : Decidable (Written count text) :=
  inferInstanceAs (Decidable (_ ∧ ∀ c ∈ text.toList, c ∈ anyDigits))

section Digits

variable {c : Char} {d : Fin 16}

theorem hexLetter_lt : ∀ d e : Fin 16, d < e → hexLetter d < hexLetter e := by decide

theorem hexLetter_mem : ∀ d : Fin 16, hexLetter d ∈ lowerDigits := by decide

theorem toUpper_hexLetter :
    ∀ d : Fin 16, 10 ≤ d.val → (hexLetter d).toUpper = Char.ofNat (0x37 + d) := by decide

/-- A character has the value of a digit just if it is that digit in lower or in upper case. -/
theorem digit?_eq_some : digit? c = some d ↔ c = hexLetter d ∨ c = (hexLetter d).toUpper := by
  have between (lo hi : Char) : lo ≤ c ∧ c ≤ hi ↔ lo.toNat ≤ c.toNat ∧ c.toNat ≤ hi.toNat := Iff.rfl
  have back : Char.ofNat c.toNat = c := Char.ofNat_toNat c
  constructor
  · intro h
    simp only [digit?, between, Char.reduceToNat] at h
    split at h
    · obtain rfl := Option.some.inj h
      have value : (Fin.ofNat 16 (c.toNat - 0x30)).val = c.toNat - 0x30 :=
        Nat.mod_eq_of_lt (by omega)
      left
      rw [hexLetter, value, if_pos (by omega), Nat.add_sub_of_le (by omega), back]
    · split at h
      · obtain rfl := Option.some.inj h
        have value : (Fin.ofNat 16 (c.toNat - 0x57)).val = c.toNat - 0x57 :=
          Nat.mod_eq_of_lt (by omega)
        left
        rw [hexLetter, value, if_neg (by omega), Nat.add_sub_of_le (by omega), back]
      · split at h
        · obtain rfl := Option.some.inj h
          have value : (Fin.ofNat 16 (c.toNat - 0x37)).val = c.toNat - 0x37 :=
            Nat.mod_eq_of_lt (by omega)
          right
          rw [toUpper_hexLetter _ (by omega), value, Nat.add_sub_of_le (by omega), back]
        · cases h
  · have both : ∀ d : Fin 16, digit? (hexLetter d) = some d ∧
        digit? (hexLetter d).toUpper = some d := by decide
    rintro (rfl | rfl)
    · exact (both d).1
    · exact (both d).2

theorem toLower_of_digit? (h : digit? c = some d) : c.toLower = hexLetter d := by
  have lower : ∀ d : Fin 16, (hexLetter d).toLower = hexLetter d ∧
      (hexLetter d).toUpper.toLower = hexLetter d := by decide
  rcases digit?_eq_some.1 h with rfl | rfl
  · exact (lower d).1
  · exact (lower d).2

theorem exists_digit? : (∃ d, digit? c = some d) ↔ c ∈ anyDigits := by
  constructor
  · have listed : ∀ d : Fin 16, hexLetter d ∈ anyDigits ∧ (hexLetter d).toUpper ∈ anyDigits := by
      decide
    rintro ⟨d, h⟩
    rcases digit?_eq_some.1 h with rfl | rfl
    · exact (listed d).1
    · exact (listed d).2
  · have read : (anyDigits.all fun c => (digit? c).isSome) = true := by decide +kernel
    exact fun h => Option.isSome_iff_exists.1 (List.all_eq_true.1 read c h)

theorem utf8Size_of_digit (h : c ∈ anyDigits) : c.utf8Size = 1 := by
  have one : (anyDigits.all fun c => c.utf8Size == 1) = true := by decide +kernel
  exact eq_of_beq (List.all_eq_true.1 one c h)

end Digits

/-! ## Texts -/

section Texts

variable {position count n m : Nat} {cs : List Char} {ds : List (Fin 16)} {text : String}

theorem scan_eq_ok : scan position cs = .ok ds ↔ cs.map digit? = ds.map some := by
  induction cs generalizing position ds with
  | nil => cases ds <;> simp [scan]
  | cons c rest ih =>
    rw [scan, List.map_cons]
    cases digit? c with
    | none => cases ds <;> simp
    | some d =>
      refine map_eq_ok.trans ?_
      constructor
      · rintro ⟨ds, read, rfl⟩
        rw [ih.1 read, List.map_cons]
      · intro h
        cases ds with
        | nil => cases h
        | cons d' ds =>
          obtain ⟨e, read⟩ := List.cons.inj h
          exact ⟨ds, ih.2 read, congrArg (· :: ds) (Option.some.inj e)⟩

theorem exists_digits : (∃ ds : List (Fin 16), cs.map digit? = ds.map some) ↔ cs ⊆ anyDigits := by
  induction cs with
  | nil => exact iff_of_true ⟨[], rfl⟩ (List.nil_subset _)
  | cons c rest ih =>
    rw [List.cons_subset, ← ih, ← exists_digit?]
    constructor
    · rintro ⟨ds, h⟩
      cases ds with
      | nil => cases h
      | cons d ds => exact ⟨⟨d, (List.cons.inj h).1⟩, ds, (List.cons.inj h).2⟩
    · rintro ⟨⟨d, first⟩, ds, others⟩
      exact ⟨d :: ds, by rw [List.map_cons, first, others, List.map_cons]⟩

theorem toLower_of_digits (h : cs.map digit? = ds.map some) :
    cs.map Char.toLower = (ds.map Fin.val).map hexLetter := by
  induction cs generalizing ds with
  | nil => cases ds with
    | nil => rfl
    | cons d ds => cases h
  | cons c rest ih => cases ds with
    | nil => cases h
    | cons d ds =>
      obtain ⟨first, others⟩ := List.cons.inj h
      rw [List.map_cons, toLower_of_digit? first, ih others, List.map_cons, List.map_cons]

theorem utf8ByteSize_of_digits (h : text.toList ⊆ anyDigits) : text.utf8ByteSize = text.length := by
  have all : ∀ cs : List Char, cs ⊆ anyDigits → (String.ofList cs).utf8ByteSize = cs.length := by
    intro cs
    induction cs with
    | nil => exact fun _ => rfl
    | cons c rest ih =>
      intro h
      obtain ⟨first, others⟩ := List.cons_subset.1 h
      rw [← List.singleton_append, String.ofList_append, String.utf8ByteSize_append, ih others,
        ← String.singleton_eq_ofList, String.utf8ByteSize_singleton, utf8Size_of_digit first,
        List.length_append, List.length_singleton]
  rw [← String.length_toList, ← all _ h, String.ofList_toList]

theorem read_eq_ok (even : count % 2 = 0) {v : Fin (Radix.capacity 16 count)} :
    read count text = .ok v ↔ ∃ ds : List (Fin 16), text.toList.map digit? = ds.map some ∧
      ds.length = count ∧ v.val = Radix.value 16 (ds.map Fin.val) := by
  constructor
  · intro h
    rw [read] at h
    split at h
    · cases h
    · split at h
      · cases h
      · rename_i ds scanned
        split at h
        · rename_i size
          subst size
          exact ⟨ds, scan_eq_ok.1 scanned, rfl, congrArg Fin.val (Except.ok.inj h).symm⟩
        · cases h
  · rintro ⟨ds, digits, rfl, e⟩
    -- the length is checked in bytes before any digit is looked at
    have size : text.utf8ByteSize = ds.length := by
      have same := congrArg List.length digits
      rw [List.length_map, List.length_map, String.length_toList] at same
      rw [utf8ByteSize_of_digits (exists_digits.1 ⟨ds, digits⟩), same]
    rw [read, if_neg (by omega), scan_eq_ok.2 digits]
    simp only [dif_pos]
    exact congrArg Except.ok (Fin.ext e.symm)

theorem exists_read (even : count % 2 = 0) :
    (∃ v, read count text = .ok v) ↔ Written count text := by
  simp only [read_eq_ok even]
  constructor
  · rintro ⟨_, ds, digits, rfl, _⟩
    refine ⟨?_, exists_digits.1 ⟨ds, digits⟩⟩
    have same := congrArg List.length digits
    rwa [List.length_map, List.length_map, String.length_toList] at same
  · rintro ⟨size, listed⟩
    obtain ⟨ds, digits⟩ := exists_digits.2 listed
    have same := congrArg List.length digits
    rw [List.length_map, List.length_map, String.length_toList, size] at same
    subst same
    exact ⟨ofDigits ds, ds, digits, rfl, rfl⟩

theorem toList_write : (write count n).toList = (Radix.digits 16 count n).map hexLetter :=
  String.toList_ofList

theorem length_write : (write count n).length = count := by
  rw [← String.length_toList, toList_write, List.length_map, Radix.length_digits]

theorem exists_written (count n : Nat) : ∃ ds : List (Fin 16),
    ds.map Fin.val = Radix.digits 16 count n ∧
      (write count n).toList = ds.map fun d : Fin 16 => hexLetter d := by
  have small {d : Nat} (hd : d ∈ Radix.digits 16 count n) : (Fin.ofNat 16 d).val = d :=
    Nat.mod_eq_of_lt (Radix.digit_lt (by decide) hd)
  refine ⟨(Radix.digits 16 count n).map (Fin.ofNat 16), ?_, ?_⟩
  · rw [List.map_map]
    exact (List.map_congr_left fun d hd => small hd).trans (List.map_id _)
  · rw [toList_write, List.map_map]
    exact List.map_congr_left fun d hd => congrArg hexLetter (small hd).symm

theorem write_lower : (write count n).toList ⊆ lowerDigits := by
  obtain ⟨ds, _, e⟩ := exists_written count n
  intro c hc
  rw [e] at hc
  obtain ⟨d, _, rfl⟩ := List.mem_map.1 hc
  exact hexLetter_mem d

theorem read_write (even : count % 2 = 0) (h : n < Radix.capacity 16 count) :
    read count (write count n) = .ok ⟨n, h⟩ := by
  obtain ⟨ds, digits, e⟩ := exists_written count n
  refine (read_eq_ok even).2 ⟨ds, ?_, ?_, ?_⟩
  · have each : ∀ d : Fin 16, digit? (hexLetter d) = some d := by decide
    rw [e, List.map_map]
    exact List.map_congr_left fun d _ => each d
  · rw [← List.length_map (f := Fin.val), digits, Radix.length_digits]
  · rw [digits, Radix.value_digits h]

theorem write_of_read (even : count % 2 = 0) {v : Fin (Radix.capacity 16 count)}
    (h : read count text = .ok v) : write count v = text.toLower := by
  obtain ⟨ds, digits, rfl, e⟩ := (read_eq_ok even).1 h
  have small : ∀ d ∈ ds.map Fin.val, d < 16 := by
    intro d hd
    obtain ⟨f, _, rfl⟩ := List.mem_map.1 hd
    exact f.isLt
  have spelt := Radix.digits_value small
  rw [List.length_map, ← e] at spelt
  have lowered : text.toLower.toList = text.toList.map Char.toLower := String.toList_map
  apply String.toList_injective
  rw [toList_write, spelt, lowered, toLower_of_digits digits]

/-- Reading gives the number that is written like the text in lower case. -/
theorem read_eq_ok_iff (even : count % 2 = 0) {v : Fin (Radix.capacity 16 count)} :
    read count text = .ok v ↔ Written count text ∧ write count v = text.toLower := by
  constructor
  · intro h
    exact ⟨(exists_read even).1 ⟨v, h⟩, write_of_read even h⟩
  · rintro ⟨written, e⟩
    obtain ⟨v', h⟩ := (exists_read even).2 written
    -- a number is determined by what is written for it
    have same := read_write even v.isLt
    rw [e, ← write_of_read even h, read_write even v'.isLt] at same
    rw [h]
    exact same

theorem write_lt_write (h : m < n) (bound : n < Radix.capacity 16 count) :
    write count m < write count n := by
  change (write count m).toList < (write count n).toList
  rw [toList_write, toList_write]
  refine map_lt_map (fun d hd e he lt => ?_) (Radix.digits_lt_digits h bound)
  exact hexLetter_lt ⟨d, Radix.digit_lt (by decide) hd⟩ ⟨e, Radix.digit_lt (by decide) he⟩ lt

end Texts

end Hex

/-! ## Identifiers -/

namespace Id

open Ranked (rank)
open Text (hexLetter)

variable {noun : Noun} {a b : Id noun} {text : String}

theorem ofHex_eq_ok : ofHex text = .ok a ↔ Hex.read 32 text = .ok ⟨a.value, a.bounded⟩ := by
  refine map_eq_ok.trans ?_
  constructor
  · rintro ⟨v, read, rfl⟩
    exact read
  · exact fun read => ⟨_, read, rfl⟩

theorem hex_length : a.hex.length = 32 := Hex.length_write

/-- The text has two digits for each byte, the higher one first. -/
theorem hex_bytes : a.hex.toList =
    a.bytes.flatMap fun byte => [hexLetter (byte.toNat / 16), hexLetter (byte.toNat % 16)] := by
  have small {d : Nat} (hd : d ∈ Radix.digits 256 16 a.value) : (UInt8.ofNat d).toNat = d :=
    Nat.mod_eq_of_lt (Radix.digit_lt (by decide) hd)
  have double : Radix.digits 16 32 a.value =
      (Radix.digits 256 16 a.value).flatMap fun d => [d / 16, d % 16] :=
    Radix.digits_double 16 16 a.value
  rw [hex, Hex.toList_write, double, List.map_flatMap, bytes, List.flatMap_map]
  refine congrArg List.flatten (List.map_congr_left fun d hd => ?_)
  rw [small hd]
  rfl

theorem bytes_lt_bytes (h : a.value < b.value) : a.bytes < b.bytes := by
  refine map_lt_map (fun d hd e he lt => ?_) (Radix.digits_lt_digits h b.bounded)
  have hd : (UInt8.ofNat d).toNat = d := Nat.mod_eq_of_lt (Radix.digit_lt (by decide) hd)
  have he : (UInt8.ofNat e).toNat = e := Nat.mod_eq_of_lt (Radix.digit_lt (by decide) he)
  rw [UInt8.lt_iff_toNat_lt, hd, he]
  exact lt

/-- What preserves the order of numbers strictly and orders nothing both ways reflects it. -/
theorem lt_iff_of_mono {β : Type} [LT β] [Std.Asymm fun x y : β => x < y] {f : Id noun → β}
    (mono : ∀ {a b : Id noun}, a.value < b.value → f a < f b) :
    rank a < rank b ↔ f a < f b := by
  refine ⟨mono, fun h => ?_⟩
  rcases Nat.lt_trichotomy a.value b.value with lt | same | gt
  · exact lt
  · rw [eq_of_value same] at h
    exact absurd h (Std.Irrefl.irrefl _)
  · exact absurd h (Std.Asymm.asymm _ _ (mono gt))

/-- The text of an identifier has thirty-two digits in lower case, two for each byte, and is read back.
Just the texts of thirty-two digits in either case are read, as the identifier whose text they are in
lower case. Identifiers, their bytes and their texts are in the same order. -/
theorem hex_faithful (a b : Id noun) (text : String) :
    a.hex.length = 32 ∧ a.hex.toList ⊆ Hex.lowerDigits ∧
    (a.hex.toList = a.bytes.flatMap fun byte =>
      [hexLetter (byte.toNat / 16), hexLetter (byte.toNat % 16)]) ∧
    ofHex a.hex = .ok a ∧
    ((∃ c : Id noun, ofHex text = .ok c) ↔ Hex.Written 32 text) ∧
    ((∃ fault, (ofHex text : Except Hex.Fault (Id noun)) = .error fault) ↔ ¬ Hex.Written 32 text) ∧
    (ofHex text = .ok a ↔ Hex.Written 32 text ∧ a.hex = text.toLower) ∧
    (rank a < rank b ↔ a.hex < b.hex) ∧ (rank a < rank b ↔ a.bytes < b.bytes) := by
  have even : 32 % 2 = 0 := rfl
  have reads : (∃ c : Id noun, ofHex text = .ok c) ↔ Hex.Written 32 text := by
    rw [← Hex.exists_read even]
    constructor
    · rintro ⟨c, read⟩
      exact ⟨_, ofHex_eq_ok.1 read⟩
    · rintro ⟨v, read⟩
      exact ⟨⟨v.val, v.isLt⟩, ofHex_eq_ok.2 read⟩
  refine ⟨hex_length, Hex.write_lower, hex_bytes, ofHex_eq_ok.2 (Hex.read_write even a.bounded), reads,
    ?_, ofHex_eq_ok.trans (Hex.read_eq_ok_iff even), lt_iff_of_mono fun lt => ?_,
    lt_iff_of_mono bytes_lt_bytes⟩
  · rw [← reads]
    cases (ofHex text : Except Hex.Fault (Id noun)) with
    | error fault => simp
    | ok c => simp
  · exact Hex.write_lt_write lt (Fin.isLt ⟨_, bounded _⟩)

end Id

end TenantAccess
