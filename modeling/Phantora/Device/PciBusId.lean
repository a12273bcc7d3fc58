import Phantora.Lib.HexText

/-!
# PCI bus identifiers

A device ordinal is written as a domain, a bus and a device, with a marker bit
in the domain. Reading an identifier keeps the marker bit, so that it never
gives back the ordinal that the identifier was made from; the identifiers of
different ordinals still differ.
-/

namespace Phantora

open HexText

/-- `cudaDeviceGetPCIBusId`: what `snprintf` leaves in a buffer of a length. -/
def cudaDeviceGetPCIBusId (len : ℕ) (device : BitVec 32) : List Char :=
  let dev := device &&& 0xFF
  let bus := device.sshiftRight 8 &&& 0xFF
  let domain := (device.sshiftRight 16 &&& 0xFFF) ||| 0x1000
  (print 4 domain.toNat ++ ':' :: print 2 bus.toNat ++ ':' :: print 2 dev.toNat ++
    ['.', '0']).take (len - 1)

/-- `sscanf` with the format of `cudaDeviceGetByPCIBusId`; nothing when a number is missing. -/
def scanBusId (text : List Char) : Option (BitVec 32 × BitVec 32 × BitVec 32) := do
  let (domain, rest) ← scan text
  let rest ← expect ':' rest
  let (bus, rest) ← scan rest
  let rest ← expect ':' rest
  let (dev, _) ← scan rest
  return (.ofInt 32 domain, .ofInt 32 bus, .ofInt 32 dev)

def cudaDeviceGetByPCIBusId (pciBusId : List Char) : Option (BitVec 32) :=
  (scanBusId pciBusId).map fun (domain, bus, dev) =>
    ((domain &&& 0x7FFF) <<< 16) + (bus <<< 8) + dev

section Fields

variable {device : BitVec 32}

theorem dev_toNat : (device &&& 0xFF).toNat = device.toNat % 256 := by
  rw [BitVec.toNat_and]
  exact Nat.and_two_pow_sub_one_eq_mod device.toNat 8

theorem sshiftRight_toNat (small : device.toNat < 2 ^ 28) (n : ℕ) :
    (device.sshiftRight n).toNat = device.toNat / 2 ^ n := by
  have nonneg : device.msb = false := by
    rw [BitVec.msb_eq_false_iff_two_mul_lt]
    omega
  rw [BitVec.sshiftRight_eq_of_msb_false nonneg, BitVec.toNat_ushiftRight,
    Nat.shiftRight_eq_div_pow]

theorem bus_toNat (small : device.toNat < 2 ^ 28) :
    (device.sshiftRight 8 &&& 0xFF).toNat = device.toNat / 256 % 256 := by
  rw [BitVec.toNat_and, sshiftRight_toNat small]
  exact Nat.and_two_pow_sub_one_eq_mod _ 8

/-- The marker bit stands above the bits of the ordinal. -/
theorem domain_toNat (small : device.toNat < 2 ^ 28) :
    ((device.sshiftRight 16 &&& 0xFFF) ||| 0x1000).toNat = device.toNat / 65536 + 4096 := by
  have high : device.toNat / 65536 < 2 ^ 12 := by omega
  have masked : (device.sshiftRight 16 &&& 0xFFF).toNat = device.toNat / 65536 := by
    rw [BitVec.toNat_and, sshiftRight_toNat small]
    exact (Nat.and_two_pow_sub_one_eq_mod _ 12).trans (Nat.mod_eq_of_lt high)
  have marked := Nat.two_pow_add_eq_or_of_lt high 1
  rw [BitVec.toNat_or, masked, Nat.or_comm]
  rw [Nat.mul_one] at marked
  exact marked.symm.trans (Nat.add_comm _ _)

end Fields

theorem ends_cons {c : Char} {text : List Char} (value : digitValue c = none) (lower : c ≠ 'x')
    (upper : c ≠ 'X') : Ends (c :: text) := by
  intro first rest same
  rw [List.cons.injEq] at same
  exact same.1 ▸ ⟨value, lower, upper⟩

/-- The three fields are read as they were printed. -/
theorem scanBusId_print (domain bus dev : ℕ) :
    scanBusId (print 4 domain ++ ':' :: print 2 bus ++ ':' :: print 2 dev ++ ['.', '0']) =
      some (.ofNat 32 domain, .ofNat 32 bus, .ofNat 32 dev) := by
  have colon : ∀ text, Ends (':' :: text) := fun text =>
    ends_cons (by decide) (by decide) (by decide)
  have dot : Ends ['.', '0'] := ends_cons (by decide) (by decide) (by decide)
  simp only [List.append_assoc, List.cons_append]
  simp [scanBusId, scan_print_append, colon, dot, expect]

theorem length_print {width n : ℕ} (fits : n < 16 ^ width) (positive : 0 < width) :
    (print width n).length = width := by
  have digits := (Nat.digits_length_le_iff (by decide) n).mpr fits
  simp only [print, padded, List.length_map, List.length_leftpad, List.length_reverse]
  omega

/-- The fields put together are the ordinal with the marker bit. -/
theorem fields_add {device : BitVec 32} (small : device.toNat < 2 ^ 28) :
    (((device.sshiftRight 16 &&& 0xFFF ||| 0x1000) &&& 0x7FFF) <<< 16) +
        ((device.sshiftRight 8 &&& 0xFF) <<< 8) + (device &&& 0xFF) = device + 0x10000000 := by
  have marked : ((device.sshiftRight 16 &&& 0xFFF ||| 0x1000) &&& 0x7FFF).toNat =
      device.toNat / 65536 + 4096 := by
    rw [BitVec.toNat_and, domain_toNat small]
    exact (Nat.and_two_pow_sub_one_eq_mod _ 15).trans (Nat.mod_eq_of_lt (by omega))
  apply BitVec.eq_of_toNat_eq
  rw [BitVec.toNat_add, BitVec.toNat_add, BitVec.toNat_shiftLeft, BitVec.toNat_shiftLeft,
    Nat.shiftLeft_eq, Nat.shiftLeft_eq, marked, bus_toNat small, dev_toNat, BitVec.toNat_add]
  simp only [BitVec.reduceToNat]
  omega

/-- A buffer of thirteen characters holds the whole identifier. -/
theorem getPCIBusId_eq {device : BitVec 32} (small : device.toNat < 2 ^ 28) {len : ℕ}
    (large : 13 ≤ len) :
    cudaDeviceGetPCIBusId len device =
      print 4 ((device.sshiftRight 16 &&& 0xFFF) ||| 0x1000).toNat ++
        ':' :: print 2 (device.sshiftRight 8 &&& 0xFF).toNat ++
          ':' :: print 2 (device &&& 0xFF).toNat ++ ['.', '0'] := by
  rw [cudaDeviceGetPCIBusId]
  apply List.take_of_length_le
  have domain : (print 4 ((device.sshiftRight 16 &&& 0xFFF) ||| 0x1000).toNat).length = 4 :=
    length_print (by rw [domain_toNat small]; omega) (by decide)
  have bus : (print 2 (device.sshiftRight 8 &&& 0xFF).toNat).length = 2 :=
    length_print (by rw [bus_toNat small]; omega) (by decide)
  have dev : (print 2 (device &&& 0xFF).toNat).length = 2 :=
    length_print (by rw [dev_toNat]; omega) (by decide)
  simp only [List.length_append, List.length_cons, List.length_nil, domain, bus, dev]
  omega

theorem read_getPCIBusId {device : BitVec 32} (small : device.toNat < 2 ^ 28) {len : ℕ}
    (large : 13 ≤ len) :
    cudaDeviceGetByPCIBusId (cudaDeviceGetPCIBusId len device) = some (device + 0x10000000) := by
  rw [getPCIBusId_eq small large, cudaDeviceGetByPCIBusId, scanBusId_print, Option.map_some,
    BitVec.ofNat_toNat, BitVec.ofNat_toNat, BitVec.ofNat_toNat, BitVec.setWidth_eq,
    BitVec.setWidth_eq, BitVec.setWidth_eq]
  exact congrArg some (fields_add small)

/-- For no ordinal is the identifier read back as the ordinal: the marker bit is added. Different
ordinals have different identifiers. -/
theorem getByPCIBusId_getPCIBusId (device : BitVec 32) (small : device.toNat < 2 ^ 28) (len : ℕ)
    (large : 13 ≤ len) :
    cudaDeviceGetByPCIBusId (cudaDeviceGetPCIBusId len device) = some (device + 0x10000000) ∧
    cudaDeviceGetByPCIBusId (cudaDeviceGetPCIBusId len device) ≠ some device ∧
    ∀ other : BitVec 32, other.toNat < 2 ^ 28 →
      cudaDeviceGetPCIBusId len device = cudaDeviceGetPCIBusId len other → device = other := by
  refine ⟨read_getPCIBusId small large, ?_, ?_⟩
  · rw [read_getPCIBusId small large, Ne, Option.some.injEq]
    bv_omega
  · intro other small' same
    have both := (read_getPCIBusId small large).symm.trans (same ▸ read_getPCIBusId small' large)
    rw [Option.some.injEq] at both
    bv_omega

/-- The identifier of ordinal 259. -/
theorem getByPCIBusId_getPCIBusId_259 :
    cudaDeviceGetByPCIBusId (cudaDeviceGetPCIBusId 13 259) = some (259 + 0x10000000) :=
  (getByPCIBusId_getPCIBusId 259 (by decide) 13 (by decide)).1

/-- The identifier `1000:00:00.0` of the first device is read as another ordinal. -/
theorem not_getByPCIBusId_getPCIBusId_first :
    ¬∀ device : BitVec 32, device.toNat < 2 ^ 28 → ∀ len, 13 ≤ len →
      cudaDeviceGetByPCIBusId (cudaDeviceGetPCIBusId len device) = some device := by
  intro claim
  have first := claim 0 (by decide) 13 (by decide)
  have text : cudaDeviceGetPCIBusId 13 0 =
      ['1', '0', '0', '0', ':', '0', '0', ':', '0', '0', '.', '0'] := by decide +kernel
  rw [text] at first
  exact absurd first (by decide +kernel)

end Phantora
