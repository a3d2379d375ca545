import Zmq.Lib.Run

/-! # Z85

`zmq_z85_encode` writes four bytes as five digits to the base 85, `zmq_z85_decode` reads
them back. Both run along their input with an `unsigned int`, so that a string of 4 GiB
has no end for the decoder.
-/

namespace Zmq.Z85

def encoder : List UInt8 :=
  -- The digits, the letters and then `.-:+=^!/*?&<>()[]{}@%$#`.
  (List.range' 48 10 ++ List.range' 97 26 ++ List.range' 65 26 ++
    [46, 45, 58, 43, 61, 94, 33, 47, 42, 63, 38, 60, 62, 40, 41, 91, 93, 123, 125, 64, 37, 36, 35]).map
      UInt8.ofNat

/-- Maps base 85 to base 256, from the character 32 on. -/
def decoder : List UInt8 :=
  [0xFF, 0x44, 0xFF, 0x54, 0x53, 0x52, 0x48, 0xFF, 0x4B, 0x4C, 0x46, 0x41,
   0xFF, 0x3F, 0x3E, 0x45, 0x00, 0x01, 0x02, 0x03, 0x04, 0x05, 0x06, 0x07,
   0x08, 0x09, 0x40, 0xFF, 0x49, 0x42, 0x4A, 0x47, 0x51, 0x24, 0x25, 0x26,
   0x27, 0x28, 0x29, 0x2A, 0x2B, 0x2C, 0x2D, 0x2E, 0x2F, 0x30, 0x31, 0x32,
   0x33, 0x34, 0x35, 0x36, 0x37, 0x38, 0x39, 0x3A, 0x3B, 0x3C, 0x3D, 0x4D,
   0xFF, 0x4E, 0x43, 0xFF, 0xFF, 0x0A, 0x0B, 0x0C, 0x0D, 0x0E, 0x0F, 0x10,
   0x11, 0x12, 0x13, 0x14, 0x15, 0x16, 0x17, 0x18, 0x19, 0x1A, 0x1B, 0x1C,
   0x1D, 0x1E, 0x1F, 0x20, 0x21, 0x22, 0x23, 0x4F, 0xFF, 0x50, 0xFF, 0xFF]

/-- The variables of the two loops. -/
structure Coding where
  /-- `byte_nbr` of the encoder, `char_nbr` of the decoder. -/
  nbr : Nat := 0
  value : Nat := 0
  dest : List UInt8 := []

def Coding.next (s : Coding) : Nat := (s.nbr + 1) % 2 ^ 32

/-- The body of either loop: every `width` characters of the input a group is put out. -/
def step (width : Nat) (accumulate : Nat → UInt8 → Option Nat) (emit : Nat → List UInt8)
    (s : Coding) (c : UInt8) : Option Coding := do
  let value ← accumulate s.value c
  if s.next % width = 0 then
    return { nbr := s.next, value := 0, dest := s.dest ++ emit value }
  else
    return { s with nbr := s.next, value := value }

/-- The loop: `none` as long as it runs, and then the variables or EINVAL. -/
def scan (step : Coding → UInt8 → Option Coding) (input : List UInt8) :
    Nat → Coding → Option (Option Coding)
  | 0, _ => none
  | fuel + 1, s =>
    match input[s.nbr]? with
    | none => some (some s)
    | some c =>
      match step s c with
      | none => some none
      | some s => scan step input fuel s

inductive Returned where
  | null
  | aborted
  | dest (bytes : List UInt8)
  deriving DecidableEq

def accumulateByte (value : Nat) (byte : UInt8) : Option Nat :=
  some ((value * 256 + byte.toNat) % 2 ^ 32)

def chars (value : Nat) : List UInt8 :=
  [52200625, 614125, 7225, 85, 1].map fun divisor => encoder.getD (value / divisor % 85) 0

def zmqZ85Encode (fuel : Nat) (data : List UInt8) : Option Returned :=
  if data.length % 4 ≠ 0 then
    some .null
  else
    (scan (step 4 accumulateByte chars) data fuel {}).map fun
      | none => .null
      | some s => if s.dest.length % 2 ^ 32 = data.length * 5 / 4 then .dest s.dest else .aborted

/-- One character more in base 85, if the value stays below `2 ^ 32`. -/
def accumulateChar (value : Nat) (c : UInt8) : Option Nat :=
  if 0xFFFFFFFF / 85 < value then
    none
  else
    let value := value * 85 % 2 ^ 32
    -- Past the end of the table is EINVAL as well.
    let summand := (decoder.getD (c - 32).toNat 0xFF).toNat
    if summand = 0xFF ∨ 0xFFFFFFFF - value < summand then
      none
    else
      some ((value + summand) % 2 ^ 32)

def bytes (value : Nat) : List UInt8 :=
  [16777216, 65536, 256, 1].map fun divisor => UInt8.ofNat (value / divisor % 256)

/-- A C string is given by the characters before its NUL. -/
def zmqZ85Decode (fuel : Nat) (string : List UInt8) : Option Returned :=
  if string.length < 5 ∨ string.length % 5 ≠ 0 then
    some .null
  else
    (scan (step 5 accumulateChar bytes) string fuel {}).map fun
      | none => .null
      | some s =>
        if s.nbr % 5 ≠ 0 then .null
        else if s.dest.length % 2 ^ 32 = string.length * 4 / 5 then .dest s.dest
        else .aborted

/-! ## The loop -/

section Scan

variable {width : Nat} {acc : Nat → UInt8 → Option Nat} {emit : Nat → List UInt8}
  {input : List UInt8} {s t : Coding}

theorem step_nbr {c : UInt8} (next : step width acc emit s c = some t) :
    t.nbr = (s.nbr + 1) % 2 ^ 32 := by
  obtain ⟨value, -, next⟩ := Option.bind_eq_some_iff.mp next
  split at next <;> cases next <;> rfl

theorem scan_eq (short : input.length < 2 ^ 32) (fuel : Nat) (inside : s.nbr ≤ input.length) :
    scan (step width acc emit) input fuel s =
      some ((input.drop s.nbr).foldlM (step width acc emit) s) ∨
    scan (step width acc emit) input fuel s = none ∧ fuel + s.nbr ≤ input.length := by
  induction fuel generalizing s with
  | zero => exact .inr ⟨rfl, by omega⟩
  | succ fuel ih =>
    rw [scan]
    rcases Nat.lt_or_eq_of_le inside with more | ended
    · rw [List.drop_eq_getElem_cons more, List.foldlM_cons, List.getElem?_eq_getElem more]
      cases next : step width acc emit s input[s.nbr] with
      | none => simp [next]
      | some t =>
        have nbr : t.nbr = s.nbr + 1 := (step_nbr next).trans (Nat.mod_eq_of_lt (by omega))
        have onward := ih (s := t) (by omega)
        rw [nbr, Nat.add_comm s.nbr, ← Nat.add_assoc] at onward
        simpa [next, Nat.add_comm] using onward
    · simp [ended]

theorem scan_ne (long : 2 ^ 32 ≤ input.length) (fuel : Nat) (inside : s.nbr < 2 ^ 32) (t : Coding) :
    scan (step width acc emit) input fuel s ≠ some (some t) := by
  induction fuel generalizing s with
  | zero => nofun
  | succ fuel ih =>
    rw [scan, List.getElem?_eq_getElem (by omega)]
    cases next : step width acc emit s input[s.nbr] with
    | none => simp [next]
    | some u => simpa [next] using ih (s := u) (step_nbr next ▸ Nat.mod_lt _ (by decide))

theorem foldlM_group {g : List UInt8} (rest : g ≠ []) (s : Coding)
    (whole : s.nbr % width + g.length = width) (short : s.nbr + g.length < 2 ^ 32) :
    g.foldlM (step width acc emit) s = (g.foldlM acc s.value).map fun value =>
      { nbr := s.nbr + g.length, value := 0, dest := s.dest ++ emit value } := by
  induction g generalizing s with
  | nil => exact absurd rfl rest
  | cons c g ih =>
    rw [List.length_cons] at whole short
    have next : s.next = s.nbr + 1 := Nat.mod_eq_of_lt (by omega)
    have turn : (s.nbr + 1) % width = (s.nbr % width + 1) % width := by simp
    simp only [List.foldlM_cons, step, next, turn]
    cases acc s.value c with
    | none => rfl
    | some value =>
      by_cases last : g = []
      · subst last
        have ends : (s.nbr % width + 1) % width = 0 := Nat.mod_eq_zero_of_dvd ⟨1, by simpa using whole⟩
        simp [ends]
      · have more := List.length_pos_iff.mpr last
        have inside : (s.nbr % width + 1) % width = s.nbr % width + 1 := Nat.mod_eq_of_lt (by omega)
        have onward := ih last { s with nbr := s.nbr + 1, value := value }
          (by simp only; omega) (by simp only; omega)
        simp only [inside, Nat.succ_ne_zero, if_false, Option.bind_eq_bind, Option.bind_some,
          Option.pure_def, onward, List.length_cons, Nat.add_assoc, Nat.add_comm 1]

theorem foldlM_groups (pos : 0 < width) {gs : List (List UInt8)} (widths : ∀ g ∈ gs, g.length = width)
    {n : Nat} (dest : List UInt8) (start : n % width = 0) (short : n + gs.flatten.length < 2 ^ 32) :
    gs.flatten.foldlM (step width acc emit) { nbr := n, value := 0, dest := dest } = some t ↔
      (∀ g ∈ gs, (g.foldlM acc 0).isSome = true) ∧
        { nbr := n + gs.flatten.length
          value := 0
          dest := dest ++ gs.flatMap fun g => emit ((g.foldlM acc 0).getD 0) } = t := by
  induction gs generalizing n dest with
  | nil => simp
  | cons g gs ih =>
    obtain ⟨first, widths⟩ := List.forall_mem_cons.mp widths
    rw [List.flatten_cons, List.length_append] at short ⊢
    rw [List.foldlM_append, foldlM_group (List.length_pos_iff.mp (by omega)) _
      (by simp [start, first]) (by simp only; omega), List.forall_mem_cons, List.flatMap_cons]
    cases g.foldlM acc 0 with
    | none => simp
    | some value =>
      have turned : (n + g.length) % width = 0 := by simp [first, start]
      simpa [Nat.add_assoc] using ih widths (dest ++ emit value) turned (by omega)

end Scan

/-! ## The digits -/

def denotes (value : Nat) (g : List UInt8) : Nat :=
  g.foldl (fun value c => value * 85 + encoder.idxOf c) value

/-- Five characters of the alphabet that denote a value of 32 bits. -/
structure Group (g : List UInt8) : Prop where
  width : g.length = 5
  alphabet : ∀ c ∈ g, c ∈ encoder
  value : denotes 0 g ≤ 2 ^ 32 - 1

def WellFormed (string : List UInt8) : Prop :=
  ∃ gs : List (List UInt8), gs ≠ [] ∧ gs.flatten = string ∧ ∀ g ∈ gs, Group g

theorem decoder_eq (c : UInt8) : (decoder.getD (c - 32).toNat 0xFF).toNat =
    if c ∈ encoder then encoder.idxOf c else 0xFF := by
  have all : ∀ n < 256, (decoder.getD (UInt8.ofNat n - 32).toNat 0xFF).toNat =
      if UInt8.ofNat n ∈ encoder then encoder.idxOf (UInt8.ofNat n) else 0xFF := by
    decide +kernel
  simpa using all c.toNat c.toNat_lt

theorem idxOf_getD (n : Nat) : encoder.idxOf (encoder.getD (n % 85) 0) = n % 85 ∧
    encoder.getD (n % 85) 0 ∈ encoder := by
  have all : ∀ n < 85, encoder.idxOf (encoder.getD n 0) = n ∧ encoder.getD n 0 ∈ encoder := by
    decide +kernel
  exact all _ (Nat.mod_lt _ (by decide))

theorem idxOf_lt {c : UInt8} (known : c ∈ encoder) :
    encoder.idxOf c < 85 ∧ encoder.getD (encoder.idxOf c) 0 = c := by
  have inside := List.idxOf_lt_length_iff.mpr known
  exact ⟨inside, by simp [List.getElem?_eq_getElem inside]⟩

theorem accumulateChar_iff {value next : Nat} {c : UInt8} : accumulateChar value c = some next ↔
    c ∈ encoder ∧ next = value * 85 + encoder.idxOf c ∧ next < 2 ^ 32 := by
  unfold accumulateChar
  rw [decoder_eq]
  by_cases known : c ∈ encoder
  · have := (idxOf_lt known).1
    grind
  · simp [known]

theorem le_denotes (value : Nat) (g : List UInt8) : value ≤ denotes value g := by
  induction g generalizing value with
  | nil => exact Nat.le_refl _
  | cons c g ih =>
    have := ih (value * 85 + encoder.idxOf c)
    grind [denotes]

theorem foldlM_accumulateChar_iff {g : List UInt8} {value last : Nat} (fits : value < 2 ^ 32) :
    g.foldlM accumulateChar value = some last ↔
      (∀ c ∈ g, c ∈ encoder) ∧ last = denotes value g ∧ last < 2 ^ 32 := by
  induction g generalizing value with
  | nil => grind [denotes]
  | cons c g ih =>
    have least := le_denotes (value * 85 + encoder.idxOf c) g
    have same : denotes value (c :: g) = denotes (value * 85 + encoder.idxOf c) g := rfl
    simp only [List.foldlM_cons, Option.bind_eq_bind, Option.bind_eq_some_iff, accumulateChar_iff]
    grind

theorem chars_reads {value : Nat} (fits : value < 2 ^ 32) :
    (chars value).foldlM accumulateChar 0 = some value := by
  have same : denotes 0 (chars value) = value := by
    simp only [chars, denotes, List.map_cons, List.map_nil, List.foldl_cons, List.foldl_nil, idxOf_getD]
    omega
  refine (foldlM_accumulateChar_iff (by decide)).mpr ⟨?_, same.symm, fits⟩
  simp only [chars, List.map_cons, List.forall_mem_cons, (idxOf_getD _).2, true_and]
  nofun

theorem Group.chars_denotes {g : List UInt8} (group : Group g) : chars (denotes 0 g) = g := by
  obtain ⟨width, alphabet, -⟩ := group
  match g, width with
  | [a, b, c, d, e], _ =>
    simp only [List.forall_mem_cons] at alphabet
    obtain ⟨ha, hb, hc, hd, he, -⟩ := alphabet
    have digit {c : UInt8} {n : Nat} (known : c ∈ encoder) (same : n = encoder.idxOf c) :
        encoder.getD n 0 = c := same ▸ (idxOf_lt known).2
    have := (idxOf_lt ha).1
    have := (idxOf_lt hb).1
    have := (idxOf_lt hc).1
    have := (idxOf_lt hd).1
    have := (idxOf_lt he).1
    simp only [chars, denotes, List.map_cons, List.map_nil, List.foldl_cons, List.foldl_nil]
    rw [digit ha (by omega), digit hb (by omega), digit hc (by omega), digit hd (by omega),
      digit he (by omega)]

theorem bytes_reads {value : Nat} (fits : value < 2 ^ 32) :
    (bytes value).foldlM accumulateByte 0 = some value := by
  simp [bytes, accumulateByte]
  omega

theorem exists_bytes : ∀ data : List UInt8, data.length % 4 = 0 →
    ∃ values : List Nat, (∀ value ∈ values, value < 2 ^ 32) ∧ values.flatMap bytes = data
  | [], _ => ⟨[], nofun, rfl⟩
  | a :: b :: c :: d :: data, whole => by
    obtain ⟨values, fit, rfl⟩ := exists_bytes data (by simp only [List.length_cons] at whole; omega)
    have := a.toNat_lt
    have := b.toNat_lt
    have := c.toNat_lt
    have := d.toNat_lt
    refine ⟨(((a.toNat * 256 + b.toNat) * 256 + c.toNat) * 256 + d.toNat) :: values,
      List.forall_mem_cons.mpr ⟨by omega, fit⟩, ?_⟩
    simp [bytes, ← UInt8.toNat_inj]
    omega

/-! ## Whole strings -/

theorem scan_values (width : Nat) {acc : Nat → UInt8 → Option Nat} (form emit : Nat → List UInt8)
    (pos : 0 < width) (widths : ∀ value, (form value).length = width) {values : List Nat}
    (reads : ∀ value ∈ values, (form value).foldlM acc 0 = some value)
    (short : values.length * width < 2 ^ 32) {fuel : Nat} (enough : values.length * width < fuel) :
    (values.flatMap form).length = values.length * width ∧
      scan (step width acc emit) (values.flatMap form) fuel {} =
        some (some { nbr := values.length * width, value := 0, dest := values.flatMap emit }) := by
  have length : (values.flatMap form).length = values.length * width := by
    simp [widths, List.map_const']
  have same : (values.map form).flatMap (fun g => emit ((g.foldlM acc 0).getD 0)) =
      values.flatMap emit := by
    rw [List.flatMap_map, List.flatMap_def, List.flatMap_def]
    exact congrArg _ (List.map_congr_left fun value member => by simp [reads value member])
  have fold : (values.flatMap form).foldlM (step width acc emit) {} = some _ :=
    (foldlM_groups pos (by simp [widths]) [] (Nat.zero_mod _) (by simpa [← List.flatMap_def, length])).mpr
      ⟨by simpa using fun value member => by simp [reads value member], rfl⟩
  rw [same, ← List.flatMap_def, length, Nat.zero_add, List.nil_append] at fold
  have once : scan (step width acc emit) (values.flatMap form) fuel {} = some _ ∨ _ :=
    scan_eq (length ▸ short) fuel (Nat.zero_le _)
  refine ⟨length, ?_⟩
  rcases once with ends | ⟨-, few⟩
  · exact ends.trans (congrArg some fold)
  · simp only at few
    omega

section Values

variable {values : List Nat} (fit : ∀ value ∈ values, value < 2 ^ 32)
  (short : values.length * 5 < 2 ^ 32)
include fit short

theorem encode_values : ∃ fuel, zmqZ85Encode fuel (values.flatMap bytes) =
    some (.dest (values.flatMap chars)) := by
  obtain ⟨length, ends⟩ := scan_values 4 bytes chars (by decide) (fun _ => rfl)
    (fun value member => bytes_reads (fit value member)) (by omega)
    (Nat.lt_succ_self (values.length * 4))
  have wide : (values.flatMap chars).length = values.length * 5 := by
    simp [chars, List.map_const']
  refine ⟨values.length * 4 + 1, ?_⟩
  simp [zmqZ85Encode, length, ends, wide]
  omega

theorem decode_values (some_ : values ≠ []) : ∃ fuel, zmqZ85Decode fuel (values.flatMap chars) =
    some (.dest (values.flatMap bytes)) := by
  obtain ⟨length, ends⟩ := scan_values 5 chars bytes (by decide) (fun _ => rfl)
    (fun value member => chars_reads (fit value member)) short (Nat.lt_succ_self (values.length * 5))
  have narrow : (values.flatMap bytes).length = values.length * 4 := by
    simp [bytes, List.map_const']
  have long : ¬ values.length * 5 < 5 := by have := List.length_pos_iff.mpr some_; omega
  refine ⟨values.length * 5 + 1, ?_⟩
  simp [zmqZ85Decode, length, ends, narrow, long]
  omega

end Values

theorem exists_groups {string : List UInt8} (whole : string.length % 5 = 0) :
    ∃ gs : List (List UInt8), gs.flatten = string ∧ ∀ g ∈ gs, g.length = 5 := by
  obtain ⟨k, len⟩ := Nat.dvd_of_mod_eq_zero whole
  clear whole
  induction k generalizing string with
  | zero => exact ⟨[], (List.length_eq_zero_iff.mp len).symm, nofun⟩
  | succ k ih =>
    obtain ⟨gs, flat, widths⟩ := @ih (string.drop 5) (by rw [List.length_drop]; omega)
    exact ⟨string.take 5 :: gs, by simp [flat],
      List.forall_mem_cons.mpr ⟨by rw [List.length_take]; omega, widths⟩⟩

theorem WellFormed.exists_chars {string : List UInt8} (formed : WellFormed string) :
    ∃ values : List Nat, values ≠ [] ∧ (∀ value ∈ values, value < 2 ^ 32) ∧
      values.flatMap chars = string := by
  obtain ⟨gs, some_, rfl, groups⟩ := formed
  refine ⟨gs.map (denotes 0), by simpa using some_, fun value member => ?_, ?_⟩
  · obtain ⟨g, there, rfl⟩ := List.mem_map.mp member
    have := (groups g there).value
    omega
  · rw [List.flatMap_map, List.flatMap_def, List.map_congr_left fun g there => (groups g there).chars_denotes,
      List.map_id']

theorem wellFormed_of_decode {fuel : Nat} {string data : List UInt8}
    (ends : zmqZ85Decode fuel string = some (.dest data)) :
    WellFormed string ∧ string.length < 2 ^ 32 := by
  unfold zmqZ85Decode at ends
  split at ends
  · cases ends
  rename_i whole
  simp only [not_or, Decidable.not_not] at whole
  obtain ⟨_ | t, scanned, ends⟩ := Option.map_eq_some_iff.mp ends
  · cases ends
  have short : string.length < 2 ^ 32 := by
    by_contra long
    exact scan_ne (Nat.le_of_not_lt long) fuel (by decide) t scanned
  refine ⟨?_, short⟩
  obtain ⟨gs, rfl, widths⟩ := exists_groups whole.2
  refine ⟨gs, by rintro rfl; simp at whole, rfl, fun g member => ?_⟩
  rcases scan_eq (s := {}) short fuel (Nat.zero_le _) with folded | ⟨running, -⟩
  · have reads := ((foldlM_groups (by decide) widths [] (Nat.zero_mod _) (by simpa using short)).mp
      (Option.some.inj (folded.symm.trans scanned))).1
    obtain ⟨value, read⟩ := Option.isSome_iff_exists.mp (reads g member)
    obtain ⟨alphabet, same, fits⟩ := (foldlM_accumulateChar_iff (by decide)).mp read
    exact ⟨widths g member, alphabet, by omega⟩
  · simp [running] at scanned

/-- Encoding and decoding are inverse to each other, between data and well-formed strings
    whose end the decoder's index reaches. -/
theorem z85_bijective (data string : List UInt8) :
    (data ≠ [] → data.length % 4 = 0 → data.length < 2 ^ 31 →
      ∃ string, (∃ fuel, zmqZ85Encode fuel data = some (.dest string)) ∧
        ∃ fuel, zmqZ85Decode fuel string = some (.dest data)) ∧
    ((∃ fuel data, zmqZ85Decode fuel string = some (.dest data)) ↔
      WellFormed string ∧ string.length < 2 ^ 32) ∧
    (WellFormed string → string.length < 2 ^ 32 →
      ∃ data, (∃ fuel, zmqZ85Decode fuel string = some (.dest data)) ∧
        ∃ fuel, zmqZ85Encode fuel data = some (.dest string)) := by
  have both (formed : WellFormed string) (short : string.length < 2 ^ 32) :
      ∃ data, (∃ fuel, zmqZ85Decode fuel string = some (.dest data)) ∧
        ∃ fuel, zmqZ85Encode fuel data = some (.dest string) := by
    obtain ⟨values, some_, fit, rfl⟩ := formed.exists_chars
    have short : values.length * 5 < 2 ^ 32 := by
      simpa [chars, List.map_const'] using short
    exact ⟨_, decode_values fit short some_, encode_values fit short⟩
  refine ⟨fun some_ whole short => ?_, ⟨?_, ?_⟩, both⟩
  · obtain ⟨values, fit, rfl⟩ := exists_bytes data whole
    have short : values.length * 5 < 2 ^ 32 := by
      simp [bytes, List.map_const'] at short
      omega
    exact ⟨_, encode_values fit short, decode_values fit short (by rintro rfl; exact some_ rfl)⟩
  · rintro ⟨fuel, data, ends⟩
    exact wellFormed_of_decode ends
  · rintro ⟨formed, short⟩
    obtain ⟨data, ⟨fuel, ends⟩, -⟩ := both formed short
    exact ⟨fuel, data, ends⟩

theorem z85_bijective_hello :
    (∃ string, (∃ fuel, zmqZ85Encode fuel [0x86, 0x4F, 0xD2, 0x6F] = some (.dest string)) ∧
      ∃ fuel, zmqZ85Decode fuel string = some (.dest [0x86, 0x4F, 0xD2, 0x6F])) ∧
    ∃ data, (∃ fuel, zmqZ85Decode fuel [72, 101, 108, 108, 111] = some (.dest data)) ∧
      ∃ fuel, zmqZ85Encode fuel data = some (.dest [72, 101, 108, 108, 111]) := by
  have formed : WellFormed [72, 101, 108, 108, 111] :=
    ⟨[[72, 101, 108, 108, 111]], by simp, rfl, fun g member => by
      obtain rfl := List.mem_singleton.mp member
      exact ⟨rfl, by decide +kernel, by decide +kernel⟩⟩
  obtain ⟨encoded, -, decoded⟩ := z85_bijective [0x86, 0x4F, 0xD2, 0x6F] [72, 101, 108, 108, 111]
  exact ⟨encoded (by decide) (by decide) (by decide), decoded formed (by decide)⟩

/-- Four characters more than an index of 32 bits counts: all are digits, and there is no
    end. -/
theorem z85_decode_runs_on : WellFormed (List.replicate 4294967300 48) ∧
    ∀ fuel data, zmqZ85Decode fuel (List.replicate 4294967300 48) ≠ some (.dest data) := by
  constructor
  · refine ⟨List.replicate 858993460 (List.replicate 5 48), ?_, ?_, fun g member => ?_⟩
    · exact List.ne_nil_of_length_pos (by rw [List.length_replicate]; omega)
    · rw [List.flatten_replicate_replicate]
    · obtain rfl := List.eq_of_mem_replicate member
      exact ⟨rfl, by decide +kernel, by decide⟩
  · intro fuel data ends
    have short := (wellFormed_of_decode ends).2
    rw [List.length_replicate] at short
    omega

end Zmq.Z85
