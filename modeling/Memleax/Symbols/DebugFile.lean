import Memleax.Framework.Crc
import Memleax.Store.Callstack

/-!
# Debug files

`debug_file.c`: the checksum of a debug file, and the two sections of a file by
which its debug file is found.

The checksum is the CRC-32 of the whole file, however `read` divides it
(`fileCrc32_eq`). The sections are taken as they come: neither the name of the
note nor any length or end is looked at, so that a section that is not well-formed
is decoded from the memory behind it, or written over the end of the caller's
buffer (`sectionDecoding_iff`).
-/

namespace Memleax

open Framework

/-- `uint8_t`. -/
abbrev CByte := BitVec 8

/-! ## `file_crc32` -/

def crc32Table : Array (BitVec 32) :=
  #[0x00000000, 0x77073096, 0xee0e612c, 0x990951ba, 0x076dc419, 0x706af48f, 0xe963a535, 0x9e6495a3,
    0x0edb8832, 0x79dcb8a4, 0xe0d5e91e, 0x97d2d988, 0x09b64c2b, 0x7eb17cbd, 0xe7b82d07, 0x90bf1d91,
    0x1db71064, 0x6ab020f2, 0xf3b97148, 0x84be41de, 0x1adad47d, 0x6ddde4eb, 0xf4d4b551, 0x83d385c7,
    0x136c9856, 0x646ba8c0, 0xfd62f97a, 0x8a65c9ec, 0x14015c4f, 0x63066cd9, 0xfa0f3d63, 0x8d080df5,
    0x3b6e20c8, 0x4c69105e, 0xd56041e4, 0xa2677172, 0x3c03e4d1, 0x4b04d447, 0xd20d85fd, 0xa50ab56b,
    0x35b5a8fa, 0x42b2986c, 0xdbbbc9d6, 0xacbcf940, 0x32d86ce3, 0x45df5c75, 0xdcd60dcf, 0xabd13d59,
    0x26d930ac, 0x51de003a, 0xc8d75180, 0xbfd06116, 0x21b4f4b5, 0x56b3c423, 0xcfba9599, 0xb8bda50f,
    0x2802b89e, 0x5f058808, 0xc60cd9b2, 0xb10be924, 0x2f6f7c87, 0x58684c11, 0xc1611dab, 0xb6662d3d,
    0x76dc4190, 0x01db7106, 0x98d220bc, 0xefd5102a, 0x71b18589, 0x06b6b51f, 0x9fbfe4a5, 0xe8b8d433,
    0x7807c9a2, 0x0f00f934, 0x9609a88e, 0xe10e9818, 0x7f6a0dbb, 0x086d3d2d, 0x91646c97, 0xe6635c01,
    0x6b6b51f4, 0x1c6c6162, 0x856530d8, 0xf262004e, 0x6c0695ed, 0x1b01a57b, 0x8208f4c1, 0xf50fc457,
    0x65b0d9c6, 0x12b7e950, 0x8bbeb8ea, 0xfcb9887c, 0x62dd1ddf, 0x15da2d49, 0x8cd37cf3, 0xfbd44c65,
    0x4db26158, 0x3ab551ce, 0xa3bc0074, 0xd4bb30e2, 0x4adfa541, 0x3dd895d7, 0xa4d1c46d, 0xd3d6f4fb,
    0x4369e96a, 0x346ed9fc, 0xad678846, 0xda60b8d0, 0x44042d73, 0x33031de5, 0xaa0a4c5f, 0xdd0d7cc9,
    0x5005713c, 0x270241aa, 0xbe0b1010, 0xc90c2086, 0x5768b525, 0x206f85b3, 0xb966d409, 0xce61e49f,
    0x5edef90e, 0x29d9c998, 0xb0d09822, 0xc7d7a8b4, 0x59b33d17, 0x2eb40d81, 0xb7bd5c3b, 0xc0ba6cad,
    0xedb88320, 0x9abfb3b6, 0x03b6e20c, 0x74b1d29a, 0xead54739, 0x9dd277af, 0x04db2615, 0x73dc1683,
    0xe3630b12, 0x94643b84, 0x0d6d6a3e, 0x7a6a5aa8, 0xe40ecf0b, 0x9309ff9d, 0x0a00ae27, 0x7d079eb1,
    0xf00f9344, 0x8708a3d2, 0x1e01f268, 0x6906c2fe, 0xf762575d, 0x806567cb, 0x196c3671, 0x6e6b06e7,
    0xfed41b76, 0x89d32be0, 0x10da7a5a, 0x67dd4acc, 0xf9b9df6f, 0x8ebeeff9, 0x17b7be43, 0x60b08ed5,
    0xd6d6a3e8, 0xa1d1937e, 0x38d8c2c4, 0x4fdff252, 0xd1bb67f1, 0xa6bc5767, 0x3fb506dd, 0x48b2364b,
    0xd80d2bda, 0xaf0a1b4c, 0x36034af6, 0x41047a60, 0xdf60efc3, 0xa867df55, 0x316e8eef, 0x4669be79,
    0xcb61b38c, 0xbc66831a, 0x256fd2a0, 0x5268e236, 0xcc0c7795, 0xbb0b4703, 0x220216b9, 0x5505262f,
    0xc5ba3bbe, 0xb2bd0b28, 0x2bb45a92, 0x5cb36a04, 0xc2d7ffa7, 0xb5d0cf31, 0x2cd99e8b, 0x5bdeae1d,
    0x9b64c2b0, 0xec63f226, 0x756aa39c, 0x026d930a, 0x9c0906a9, 0xeb0e363f, 0x72076785, 0x05005713,
    0x95bf4a82, 0xe2b87a14, 0x7bb12bae, 0x0cb61b38, 0x92d28e9b, 0xe5d5be0d, 0x7cdcefb7, 0x0bdbdf21,
    0x86d3d2d4, 0xf1d4e242, 0x68ddb3f8, 0x1fda836e, 0x81be16cd, 0xf6b9265b, 0x6fb077e1, 0x18b74777,
    0x88085ae6, 0xff0f6a70, 0x66063bca, 0x11010b5c, 0x8f659eff, 0xf862ae69, 0x616bffd3, 0x166ccf45,
    0xa00ae278, 0xd70dd2ee, 0x4e048354, 0x3903b3c2, 0xa7672661, 0xd06016f7, 0x4969474d, 0x3e6e77db,
    0xaed16a4a, 0xd9d65adc, 0x40df0b66, 0x37d83bf0, 0xa9bcae53, 0xdebb9ec5, 0x47b2cf7f, 0x30b5ffe9,
    0xbdbdf21c, 0xcabac28a, 0x53b39330, 0x24b4a3a6, 0xbad03605, 0xcdd70693, 0x54de5729, 0x23d967bf,
    0xb3667a2e, 0xc4614ab8, 0x5d681b02, 0x2a6f2b94, 0xb40bbe37, 0xc30c8ea1, 0x5a05df1b, 0x2d02ef8d]

/-- The loop of `gnu_debuglink_crc32`, on the bytes from `buf` to `end`. -/
def gnuDebuglinkLoop (crc : BitVec 32) : List CByte → BitVec 32
  | [] => crc
  | byte :: buf =>
      gnuDebuglinkLoop
        (crc32Table.getD ((crc ^^^ byte.setWidth 32) &&& 0xff).toNat 0 ^^^ (crc >>> 8)) buf

def gnuDebuglinkCrc32 (crc : BitVec 32) (buf : List CByte) : BitVec 32 :=
  ~~~ gnuDebuglinkLoop (~~~ crc &&& 0xffffffff) buf &&& 0xffffffff

/-- The loop over what `read` puts into the buffer, until it returns nothing. -/
def fileCrc32Loop (crc32 : BitVec 32) : List (List CByte) → BitVec 32
  | [] => crc32
  | buffer :: rest =>
      if 0 < buffer.length then fileCrc32Loop (gnuDebuglinkCrc32 crc32 buffer) rest else crc32

/-- `reads` is what the calls of `read` return after the `lseek` to the start. -/
def fileCrc32 (reads : List (List CByte)) : BitVec 32 := fileCrc32Loop 0 reads

/-- What `read` returns until the end of a file: pieces of at most the size of the
buffer. -/
structure Reads (content : List CByte) where
  chunks : List (List CByte)
  size : ∀ chunk ∈ chunks, 1 ≤ chunk.length ∧ chunk.length ≤ 4096
  whole : chunks.flatten = content

/-- The polynomial of CRC-32, reflected. -/
def crc32Poly : BitVec 32 := 0xEDB88320

/-- An entry of the table is what eight shifts make of its index. -/
theorem crc32Table_eq (i : BitVec 8) :
    crc32Table.getD i.toNat 0 = (Crc.shift crc32Poly)^[8] (i.setWidth 32) := by
  revert i
  decide +kernel

theorem toNat_and_ff (x : BitVec 32) : (x &&& 0xff).toNat = (x.setWidth 8).toNat := by
  rw [BitVec.toNat_and, BitVec.toNat_setWidth]
  exact Nat.and_two_pow_sub_one_eq_mod x.toNat 8

/-- The loop is the register of the checksum. -/
theorem gnuDebuglinkLoop_eq (crc : BitVec 32) (buf : List CByte) :
    gnuDebuglinkLoop crc buf = Crc.feed crc32Poly crc buf := by
  induction buf generalizing crc with
  | nil => rfl
  | cons byte buf ih =>
      have hbyte : Crc.feed crc32Poly crc [byte] =
          crc32Table.getD ((crc ^^^ byte.setWidth 32) &&& 0xff).toNat 0 ^^^ (crc >>> 8) := by
        rw [toNat_and_ff, crc32Table_eq, Crc.feed, List.flatMap_singleton]
        exact Crc.foldl_feedBit_eq (by decide) crc byte
      rw [gnuDebuglinkLoop, ih, ← hbyte, ← Crc.feed_append]
      rfl

theorem gnuDebuglinkCrc32_eq (crc : BitVec 32) (buf : List CByte) :
    gnuDebuglinkCrc32 crc buf = ~~~ Crc.feed crc32Poly (~~~ crc) buf := by
  have hmask (x : BitVec 32) : x &&& 0xffffffff = x := BitVec.and_allOnes
  rw [gnuDebuglinkCrc32, hmask, hmask, gnuDebuglinkLoop_eq]

/-- The inversions between two pieces cancel. -/
theorem gnuDebuglinkCrc32_append (crc : BitVec 32) (buf buf' : List CByte) :
    gnuDebuglinkCrc32 (gnuDebuglinkCrc32 crc buf) buf' = gnuDebuglinkCrc32 crc (buf ++ buf') := by
  rw [gnuDebuglinkCrc32_eq, gnuDebuglinkCrc32_eq, gnuDebuglinkCrc32_eq, BitVec.not_not,
    Crc.feed_append]

theorem gnuDebuglinkCrc32_nil (crc : BitVec 32) : gnuDebuglinkCrc32 crc [] = crc := by
  rw [gnuDebuglinkCrc32_eq]
  exact BitVec.not_not

/-- The loop over nonempty pieces takes all of them. -/
theorem fileCrc32Loop_eq (crc : BitVec 32) {chunks : List (List CByte)}
    (h : ∀ chunk ∈ chunks, 1 ≤ chunk.length) :
    fileCrc32Loop crc chunks = gnuDebuglinkCrc32 crc chunks.flatten := by
  induction chunks generalizing crc with
  | nil => exact (gnuDebuglinkCrc32_nil crc).symm
  | cons chunk rest ih =>
      have hpos : 0 < chunk.length := h chunk List.mem_cons_self
      rw [fileCrc32Loop, if_pos hpos,
        ih _ fun c hc => h c (List.mem_cons_of_mem _ hc), gnuDebuglinkCrc32_append,
        List.flatten_cons]

/-- **The checksum of a file.** -/
theorem fileCrc32_eq :
    (∀ (content : List CByte) (reads : Reads content),
      fileCrc32 reads.chunks = Crc.checksum crc32Poly content) ∧
    ∀ (c : BitVec 32) (a b : List CByte),
      gnuDebuglinkCrc32 (gnuDebuglinkCrc32 c a) b = gnuDebuglinkCrc32 c (a ++ b) := by
  refine ⟨?_, gnuDebuglinkCrc32_append⟩
  intro content reads
  rw [fileCrc32, fileCrc32Loop_eq 0 fun chunk hchunk => (reads.size chunk hchunk).1, reads.whole,
    gnuDebuglinkCrc32_eq, Crc.checksum, BitVec.xor_allOnes]
  rfl

/-- The check value of CRC-32, of the digits 1 to 9. -/
example : fileCrc32 [[0x31, 0x32, 0x33, 0x34], [0x35, 0x36, 0x37, 0x38, 0x39]] = 0xCBF43926 := by
  decide +kernel

/-! ## `elf_section_data` -/

/-- A section of an ELF file, as libelf shows it. -/
structure NamedSection where
  name : String
  data : List CByte

/-- The loop over the sections; `none` in the list is a failure of
`gelf_getshdr`. -/
def elfSectionLoop (name : String) (outSize : Nat) :
    List (Option NamedSection) → Option (List CByte)
  | [] => none
  | none :: _ => none
  | some scn :: rest =>
      if scn.name = name then
        if scn.data.length > outSize then none else some scn.data
      else elfSectionLoop name outSize rest

/-- `none` for a file is a failure of `elf_begin` or `gelf_getehdr`. The result is
what has been copied to the buffer, `none` for `-1`. -/
def elfSectionData (file : Option (List (Option NamedSection))) (name : String) (outSize : Nat) :
    Option (List CByte) :=
  file.bind (elfSectionLoop name outSize)

/-! ## `elf_build_id` and `elf_debug_link` -/

/-- What a call has done: the value it returns, the bytes it has written to the
buffer of its caller, and the offsets at which it has read its own one. -/
structure Decoded where
  ret : BitVec 32
  out : List CByte := []
  reads : List Nat := []
deriving DecidableEq

/-- `n` bytes at `i`; `none` when they are beyond the end of the memory. -/
def loadBytes (mem : List CByte) (i n : Nat) : Option (List CByte) :=
  let bytes := (mem.drop i).take n
  if bytes.length = n then some bytes else none

/-- A `uint32_t` in four bytes. -/
def word32 : List CByte → BitVec 32
  | [a, b, c, d] => d ++ c ++ b ++ a
  | _ => 0

def loadWord (mem : List CByte) (i : Nat) : Option (BitVec 32) := (loadBytes mem i 4).map word32

/-- `strlen`; `none` when no byte up to the end of the memory is `0`. -/
def strlen : List CByte → Option Nat
  | [] => none
  | byte :: rest => if byte = 0 then some 0 else (strlen rest).map (· + 1)

/-- The buffer of 1000 bytes begins with the section. `beyond` is what follows it:
what the buffer held before, and the memory behind the buffer. -/
def elfBuildId (file : Option (List (Option NamedSection))) (beyond : List CByte) :
    Option Decoded :=
  match elfSectionData file ".note.gnu.build-id" 1000 with
  | none => some { ret := 0 }
  | some scn => do
      let buffer := scn ++ beyond
      let buildidLen ← loadWord buffer 4
      -- the `int` is a `size_t` for `memcpy`
      let n := (buildidLen.signExtend 64).toNat
      let copied ← loadBytes buffer 16 n
      some { ret := buildidLen, out := copied, reads := List.range' 4 4 ++ List.range' 16 n }

def elfDebugLink (file : Option (List (Option NamedSection))) (beyond : List CByte) :
    Option Decoded :=
  match elfSectionData file ".gnu_debuglink" 1000 with
  | none => some { ret := 0 }
  | some scn => do
      let buffer := scn ++ beyond
      let len ← strlen buffer
      let offset := (len + 4) &&& 0xFFFFFFFC
      let crc ← loadWord buffer offset
      some
        { ret := crc
          out := buffer.take (len + 1)
          reads := List.range (len + 1) ++ List.range' offset 4 }

/-! ## What the sections are to be -/

/-- The four bytes of a `uint32_t`. -/
def le32 (w : BitVec 32) : List CByte :=
  [w.extractLsb' 0 8, w.extractLsb' 8 8, w.extractLsb' 16 8, w.extractLsb' 24 8]

/-- A note with the name `GNU` and a descriptor of 1 to 100 bytes. -/
def GnuNote (scn desc : List CByte) : Prop :=
  1 ≤ desc.length ∧ desc.length ≤ 100 ∧ ∃ type rest : List CByte, type.length = 4 ∧
    scn = le32 4 ++ le32 (BitVec.ofNat 32 desc.length) ++ type ++ [0x47, 0x4E, 0x55, 0] ++ desc ++
      rest

/-- A name with its end, and a word at the next multiple of 4. -/
def DebugLink (scn name : List CByte) (crc : BitVec 32) : Prop :=
  0 ∉ name ∧ ∃ pad rest : List CByte, pad.length < 4 ∧ 4 ∣ name.length + 1 + pad.length ∧
    scn = name ++ [0] ++ pad ++ le32 crc ++ rest

/-- What `elf_build_id` is to do with a section, for a caller with `uint8_t[100]`. -/
structure BuildIdRight (scn : List CByte) (d : Decoded) : Prop where
  accepts : ∀ desc, GnuNote scn desc → d.ret.toNat = desc.length ∧ d.out = desc
  rejects : (∀ desc, ¬ GnuNote scn desc) → d.ret = 0
  inside : ∀ i ∈ d.reads, i < scn.length
  fits : d.out.length ≤ 100

/-- What `elf_debug_link` is to do with a section, for a caller with `char[1024]`. -/
structure DebugLinkRight (scn : List CByte) (d : Decoded) : Prop where
  accepts : ∀ name crc, DebugLink scn name crc → d.ret = crc ∧ d.out = name ++ [0]
  rejects : (∀ name crc, ¬ DebugLink scn name crc) → d.ret = 0
  inside : ∀ i ∈ d.reads, i < scn.length
  fits : d.out.length ≤ 1024

/-- The length of the descriptor is there, and is `0`. -/
def EmptyDescriptor (scn : List CByte) : Prop := (scn.drop 4).take 4 = [0, 0, 0, 0]

/-! ## Bytes and words of a memory -/

theorem word32_le32 (w : BitVec 32) : word32 (le32 w) = w := by
  rw [le32, word32, BitVec.extractLsb'_append_extractLsb'_eq_extractLsb' (by decide),
    BitVec.extractLsb'_append_extractLsb'_eq_extractLsb' (by decide),
    BitVec.extractLsb'_append_extractLsb'_eq_extractLsb' (by decide)]
  exact BitVec.extractLsb'_eq_self

theorem le32_word32 {bytes : List CByte} (h : bytes.length = 4) : le32 (word32 bytes) = bytes := by
  match bytes, h with
  | [a, b, c, d], _ =>
      rw [word32, le32]
      simp only [List.cons.injEq, and_true]
      refine ⟨?_, ?_, ?_, ?_⟩ <;>
      · apply BitVec.eq_of_getLsbD_eq
        intro i hi
        grind

theorem loadBytes_append (pre bytes post : List CByte) :
    loadBytes (pre ++ (bytes ++ post)) pre.length bytes.length = some bytes := by
  simp [loadBytes]

theorem loadWord_append (pre post : List CByte) (w : BitVec 32) :
    loadWord (pre ++ (le32 w ++ post)) pre.length = some w := by
  have hload := loadBytes_append pre (le32 w) post
  rw [loadWord, show (4 : Nat) = (le32 w).length from rfl, hload, Option.map_some, word32_le32]

theorem loadBytes_of_inside {scn beyond : List CByte} {i n : Nat} (h : i + n ≤ scn.length) :
    loadBytes (scn ++ beyond) i n = some ((scn.drop i).take n) := by
  have hbytes : ((scn ++ beyond).drop i).take n = (scn.drop i).take n := by
    rw [List.drop_append_of_le_length (by omega), List.take_append_of_le_length]
    rw [List.length_drop]
    omega
  have hlength : ((scn.drop i).take n).length = n := by
    rw [List.length_take, List.length_drop]
    omega
  simp only [loadBytes, hbytes, hlength, if_true]

theorem strlen_eq_some_iff {mem : List CByte} {len : Nat} :
    strlen mem = some len ↔ ∃ name rest, mem = name ++ 0 :: rest ∧ 0 ∉ name ∧ name.length = len := by
  induction mem generalizing len with
  | nil => simp [strlen]
  | cons byte mem ih =>
      rw [strlen]
      split
      · rename_i hzero
        subst hzero
        constructor
        · intro h
          exact ⟨[], mem, rfl, List.not_mem_nil, Option.some.inj h⟩
        · rintro ⟨name, rest, heq, hnot, rfl⟩
          cases name with
          | nil => rfl
          | cons first name =>
              rw [List.cons_append, List.cons.injEq] at heq
              exact absurd (heq.1 ▸ List.mem_cons_self) hnot
      · rename_i hne
        rw [Option.map_eq_some_iff]
        constructor
        · rintro ⟨l, hl, rfl⟩
          obtain ⟨name, rest, rfl, hnot, rfl⟩ := ih.mp hl
          refine ⟨byte :: name, rest, rfl, ?_, rfl⟩
          exact List.not_mem_cons_of_ne_of_not_mem (Ne.symm hne) hnot
        · rintro ⟨name, rest, heq, hnot, rfl⟩
          cases name with
          | nil =>
              rw [List.nil_append, List.cons.injEq] at heq
              exact absurd heq.1 hne
          | cons first name =>
              rw [List.cons_append, List.cons.injEq] at heq
              refine ⟨name.length, ih.mpr ⟨name, rest, heq.2, ?_, rfl⟩, rfl⟩
              exact fun hmem => hnot (List.mem_cons_of_mem _ hmem)

/-- The offset is rounded up to the next multiple of 4. -/
theorem and_mask_eq {x : Nat} (h : x < 2 ^ 32) : x &&& 0xFFFFFFFC = x / 4 * 4 := by
  have hmask : (0xFFFFFFFC : Nat) = (2 ^ 30 - 1) <<< 2 := by decide
  have hround : x / 4 * 4 = (x >>> 2) <<< 2 := by
    rw [Nat.shiftLeft_eq, Nat.shiftRight_eq_div_pow]
  apply Nat.eq_of_testBit_eq
  intro i
  rw [hmask, hround, Nat.testBit_and, Nat.testBit_shiftLeft, Nat.testBit_shiftLeft,
    Nat.testBit_two_pow_sub_one, Nat.testBit_shiftRight]
  by_cases hi : 2 ≤ i
  · have hpos : 2 + (i - 2) = i := by omega
    by_cases hbit : i < 32
    · have hlow : i - 2 < 30 := by omega
      simp [hi, hpos, hlow]
    · have hhigh : x < 2 ^ i := lt_of_lt_of_le h (Nat.pow_le_pow_right (by decide) (by omega))
      simp [hi, hpos, Nat.testBit_lt_two_pow hhigh]
  · simp [hi]

theorem length_of_elfSectionLoop {name : String} {outSize : Nat}
    {scns : List (Option NamedSection)} {scn : List CByte}
    (h : elfSectionLoop name outSize scns = some scn) : scn.length ≤ outSize := by
  induction scns with
  | nil => cases h
  | cons header rest ih =>
      cases header with
      | none => cases h
      | some s =>
          rw [elfSectionLoop] at h
          split at h
          · split at h
            · cases h
            · rename_i hfits
              cases h
              omega
          · exact ih h

theorem length_of_elfSectionData {file : Option (List (Option NamedSection))} {name : String}
    {outSize : Nat} {scn : List CByte} (h : elfSectionData file name outSize = some scn) :
    scn.length ≤ outSize := by
  obtain ⟨scns, -, h⟩ := Option.bind_eq_some_iff.mp h
  exact length_of_elfSectionLoop h

/-! ## Well-formed sections are decoded -/

section Decoding

variable {file : Option (List (Option NamedSection))} {scn : List CByte} (beyond : List CByte)

theorem elfBuildId_eq_some_iff (h : elfSectionData file ".note.gnu.build-id" 1000 = some scn)
    {d : Decoded} :
    elfBuildId file beyond = some d ↔ ∃ w copied, loadWord (scn ++ beyond) 4 = some w ∧
      loadBytes (scn ++ beyond) 16 (w.signExtend 64).toNat = some copied ∧
      d =
        { ret := w
          out := copied
          reads := List.range' 4 4 ++ List.range' 16 (w.signExtend 64).toNat } := by
  simp only [elfBuildId, h, Option.bind_eq_bind, Option.bind_eq_some_iff, Option.some.injEq,
    eq_comm (b := d)]
  constructor
  · rintro ⟨w, hw, copied, hcopied, rfl⟩
    exact ⟨w, copied, hw, hcopied, rfl⟩
  · rintro ⟨w, copied, hw, hcopied, rfl⟩
    exact ⟨w, hw, copied, hcopied, rfl⟩

theorem elfDebugLink_eq_some_iff (h : elfSectionData file ".gnu_debuglink" 1000 = some scn)
    {d : Decoded} :
    elfDebugLink file beyond = some d ↔ ∃ len crc, strlen (scn ++ beyond) = some len ∧
      loadWord (scn ++ beyond) ((len + 4) &&& 0xFFFFFFFC) = some crc ∧
      d =
        { ret := crc
          out := (scn ++ beyond).take (len + 1)
          reads := List.range (len + 1) ++ List.range' ((len + 4) &&& 0xFFFFFFFC) 4 } := by
  simp only [elfDebugLink, h, Option.bind_eq_bind, Option.bind_eq_some_iff, Option.some.injEq,
    eq_comm (b := d)]
  constructor
  · rintro ⟨len, hlen, crc, hcrc, rfl⟩
    exact ⟨len, crc, hlen, hcrc, rfl⟩
  · rintro ⟨len, crc, hlen, hcrc, rfl⟩
    exact ⟨len, hlen, crc, hcrc, rfl⟩

theorem GnuNote.loads {desc : List CByte} (h : GnuNote scn desc) :
    loadWord (scn ++ beyond) 4 = some (BitVec.ofNat 32 desc.length) ∧
      loadBytes (scn ++ beyond) 16 desc.length = some desc ∧ 16 + desc.length ≤ scn.length := by
  obtain ⟨-, -, type, rest, htype, rfl⟩ := h
  have hlen := loadWord_append (le32 4)
    (type ++ [0x47, 0x4E, 0x55, 0] ++ desc ++ rest ++ beyond) (BitVec.ofNat 32 desc.length)
  have hdesc := loadBytes_append
    (le32 4 ++ le32 (BitVec.ofNat 32 desc.length) ++ type ++ [0x47, 0x4E, 0x55, 0]) desc
    (rest ++ beyond)
  have hhead : (le32 4 ++ le32 (BitVec.ofNat 32 desc.length) ++ type ++
      [(0x47 : CByte), 0x4E, 0x55, 0]).length = 16 := by
    simp [le32, htype]
  rw [hhead] at hdesc
  refine ⟨?_, ?_, ?_⟩
  · simpa [le32] using hlen
  · simpa using hdesc
  · simp only [List.length_append] at hhead ⊢
    omega

theorem GnuNote.decodes {desc : List CByte} (h : GnuNote scn desc)
    (hfile : elfSectionData file ".note.gnu.build-id" 1000 = some scn) :
    elfBuildId file beyond = some
      { ret := BitVec.ofNat 32 desc.length
        out := desc
        reads := List.range' 4 4 ++ List.range' 16 desc.length } := by
  obtain ⟨hword, hbytes, -⟩ := h.loads beyond
  have hlength : desc.length < 2 ^ 31 := by
    have hle := h.2.1
    omega
  rw [elfBuildId_eq_some_iff beyond hfile]
  refine ⟨_, desc, hword, ?_, ?_⟩
  · rw [toNat_signExtend_ofNat hlength, hbytes]
  · rw [toNat_signExtend_ofNat hlength]

theorem DebugLink.decodes {name : List CByte} {crc : BitVec 32} (h : DebugLink scn name crc)
    (hfile : elfSectionData file ".gnu_debuglink" 1000 = some scn) :
    elfDebugLink file beyond = some
      { ret := crc
        out := name ++ [0]
        reads := List.range (name.length + 1) ++ List.range' ((name.length + 4) / 4 * 4) 4 } := by
  have hle := length_of_elfSectionData hfile
  obtain ⟨hname, pad, rest, hpad, hdvd, rfl⟩ := h
  simp only [List.length_append] at hle
  have hoffset : (name.length + 4) &&& 0xFFFFFFFC = (name.length + 4) / 4 * 4 :=
    and_mask_eq (by omega)
  have hword := loadWord_append (name ++ [0] ++ pad) (rest ++ beyond) crc
  have hhead : (name ++ [0] ++ pad).length = (name.length + 4) / 4 * 4 := by
    simp only [List.length_append, List.length_singleton]
    omega
  rw [hhead] at hword
  rw [elfDebugLink_eq_some_iff beyond hfile]
  refine ⟨name.length, crc, ?_, ?_, ?_⟩
  · exact strlen_eq_some_iff.mpr ⟨name, pad ++ le32 crc ++ rest ++ beyond, by simp, hname, rfl⟩
  · rw [hoffset]
    simpa using hword
  · rw [hoffset]
    simp [List.take_append]

/-- **A note is decoded rightly** exactly if it is well-formed or its descriptor has
the length 0. -/
theorem buildIdRight_iff (hfile : elfSectionData file ".note.gnu.build-id" 1000 = some scn) :
    (∃ d, elfBuildId file beyond = some d ∧ BuildIdRight scn d) ↔
      (∃ desc, GnuNote scn desc) ∨ EmptyDescriptor scn := by
  constructor
  · rintro ⟨d, hd, hright⟩
    by_cases hnote : ∃ desc, GnuNote scn desc
    · exact Or.inl hnote
    -- nothing is to be returned, so the length that has been read is 0
    obtain ⟨w, copied, hw, -, rfl⟩ := (elfBuildId_eq_some_iff beyond hfile).mp hd
    obtain rfl : w = 0 := hright.rejects (not_exists.mp hnote)
    have hlength : 4 + 4 ≤ scn.length := hright.inside 7 (by simp)
    rw [loadWord, loadBytes_of_inside hlength, Option.map_some, Option.some.injEq] at hw
    right
    have hfour : ((scn.drop 4).take 4).length = 4 := by
      rw [List.length_take, List.length_drop]
      omega
    rw [EmptyDescriptor, ← le32_word32 hfour, hw]
    rfl
  · rintro (⟨desc, hnote⟩ | hempty)
    · have hd := hnote.decodes beyond hfile
      obtain ⟨-, -, hlength⟩ := hnote.loads beyond
      refine ⟨_, hd, ?_, ?_, ?_, hnote.2.1⟩
      · intro desc' hnote'
        have heq := Option.some.inj (hd.symm.trans (hnote'.decodes beyond hfile))
        have hout : desc = desc' := congrArg Decoded.out heq
        subst hout
        refine ⟨?_, rfl⟩
        rw [BitVec.toNat_ofNat]
        have hle := hnote.2.1
        omega
      · exact fun hnone => absurd hnote (hnone desc)
      · intro i hi
        simp only [List.mem_append, List.mem_range'_1] at hi
        omega
    · have hlength : 4 + 4 ≤ scn.length := by
        have h4 := congrArg List.length hempty
        rw [List.length_take, List.length_drop] at h4
        simp only [List.length_cons, List.length_nil] at h4
        omega
      have hd : elfBuildId file beyond = some { ret := 0, reads := List.range' 4 4 } := by
        rw [elfBuildId_eq_some_iff beyond hfile]
        refine ⟨0, [], ?_, by simp [loadBytes], by simp⟩
        rw [loadWord, loadBytes_of_inside hlength, hempty]
        rfl
      refine ⟨_, hd, ?_, fun _ => rfl, ?_, by simp⟩
      · intro desc hnote
        have heq := Option.some.inj (hd.symm.trans (hnote.decodes beyond hfile))
        have hout : [] = desc := congrArg Decoded.out heq
        exact absurd hnote.1 (by simp [← hout])
      · intro i hi
        simp only [List.mem_range'_1] at hi
        omega

/-- **A link is decoded rightly** exactly if it is well-formed. -/
theorem debugLinkRight_iff (hfile : elfSectionData file ".gnu_debuglink" 1000 = some scn) :
    (∃ d, elfDebugLink file beyond = some d ∧ DebugLinkRight scn d) ↔
      ∃ name crc, DebugLink scn name crc := by
  have hle := length_of_elfSectionData hfile
  constructor
  · rintro ⟨d, hd, hright⟩
    obtain ⟨len, crc, hlen, hcrc, rfl⟩ := (elfDebugLink_eq_some_iff beyond hfile).mp hd
    have hend : len < scn.length := hright.inside len (by simp)
    rw [and_mask_eq (by omega)] at hcrc
    have hcrcEnd : (len + 4) / 4 * 4 + 3 < scn.length := by
      apply hright.inside
      rw [and_mask_eq (by omega)]
      simp
    obtain ⟨name, rest, hbuffer, hname, rfl⟩ := strlen_eq_some_iff.mp hlen
    rw [loadWord, loadBytes_of_inside (by omega), Option.map_some, Option.some.injEq] at hcrc
    have hhead : scn.take (name.length + 1) = name ++ [0] := by
      have htake : (scn ++ beyond).take (name.length + 1) = scn.take (name.length + 1) :=
        List.take_append_of_le_length hend
      rw [← htake, hbuffer]
      simp [List.take_append]
    have hword : (scn.drop ((name.length + 4) / 4 * 4)).take 4 = le32 crc := by
      rw [← hcrc, le32_word32]
      rw [List.length_take, List.length_drop]
      omega
    -- the padding is what is left between the name and the word
    let k := (name.length + 4) / 4 * 4 - (name.length + 1)
    have hk : name.length + 1 + k = (name.length + 4) / 4 * 4 := by omega
    refine ⟨name, crc, hname, (scn.drop (name.length + 1)).take k,
      (scn.drop ((name.length + 4) / 4 * 4)).drop 4, ?_, ?_, ?_⟩
    · rw [List.length_take]
      omega
    · rw [List.length_take, List.length_drop]
      omega
    · rw [← hword, ← hhead, List.append_assoc, List.take_append_drop, ← hk,
        ← List.drop_drop (i := k) (j := name.length + 1), List.append_assoc, List.take_append_drop, List.take_append_drop]
  · rintro ⟨name, crc, hlink⟩
    have hd := hlink.decodes beyond hfile
    refine ⟨_, hd, ?_, ?_, ?_, ?_⟩
    · intro name' crc' hlink'
      have heq := Option.some.inj (hd.symm.trans (hlink'.decodes beyond hfile))
      exact ⟨congrArg Decoded.ret heq, congrArg Decoded.out heq⟩
    · exact fun hnone => absurd hlink (hnone name crc)
    · obtain ⟨-, pad, rest, hpad, hdvd, rfl⟩ := hlink
      intro i hi
      simp only [List.mem_append, List.mem_range, List.mem_range'_1] at hi
      simp only [List.length_append, le32, List.length_cons, List.length_nil]
      omega
    · obtain ⟨-, pad, rest, hpad, hdvd, rfl⟩ := hlink
      simp only [List.length_append, List.length_singleton] at hle ⊢
      omega

end Decoding

/-- **The sections are decoded rightly** exactly if the note is well-formed or has an
empty descriptor and the link is well-formed. -/
theorem sectionDecoding_iff {file file' : Option (List (Option NamedSection))}
    {note link : List CByte}
    (hnote : elfSectionData file ".note.gnu.build-id" 1000 = some note)
    (hlink : elfSectionData file' ".gnu_debuglink" 1000 = some link)
    (beyond beyond' : List CByte) :
    ((∃ d, elfBuildId file beyond = some d ∧ BuildIdRight note d) ∧
        ∃ d, elfDebugLink file' beyond' = some d ∧ DebugLinkRight link d) ↔
      ((∃ desc, GnuNote note desc) ∨ EmptyDescriptor note) ∧
        ∃ name crc, DebugLink link name crc := by
  rw [buildIdRight_iff beyond hnote, debugLinkRight_iff beyond' hlink]

/-- A note with a build ID of `n` bytes. -/
def sampleNote (n : Nat) : List CByte :=
  le32 4 ++ le32 (BitVec.ofNat 32 n) ++ le32 3 ++ [0x47, 0x4E, 0x55, 0] ++ List.replicate n 0xAB

/-- A link to `a.debug`. -/
def sampleLink : List CByte :=
  [0x61, 0x2E, 0x64, 0x65, 0x62, 0x75, 0x67, 0] ++ le32 0x12345678

def sampleDebugged (n : Nat) : Option (List (Option NamedSection)) :=
  some [some ⟨".text", [0x90]⟩, some ⟨".note.gnu.build-id", sampleNote n⟩,
    some ⟨".gnu_debuglink", sampleLink⟩]

theorem debugLink_sampleLink :
    DebugLink sampleLink [0x61, 0x2E, 0x64, 0x65, 0x62, 0x75, 0x67] 0x12345678 :=
  ⟨by decide, [], [], by decide, by decide, rfl⟩

theorem sectionDecoding_iff_twentyBytes :
    (∃ d, elfBuildId (sampleDebugged 20) [] = some d ∧ BuildIdRight (sampleNote 20) d) ∧
      ∃ d, elfDebugLink (sampleDebugged 20) [] = some d ∧ DebugLinkRight sampleLink d := by
  have hnote : elfSectionData (sampleDebugged 20) ".note.gnu.build-id" 1000 =
      some (sampleNote 20) := rfl
  have hlink : elfSectionData (sampleDebugged 20) ".gnu_debuglink" 1000 = some sampleLink := rfl
  refine (sectionDecoding_iff hnote hlink [] []).mpr
    ⟨Or.inl ⟨List.replicate 20 0xAB, ?_⟩, _, _, debugLink_sampleLink⟩
  exact ⟨by decide, by decide, le32 3, [], rfl, by decide⟩

/-- A build ID of 120 bytes is written over the end of the 100 bytes for it. -/
theorem build_id_overflows :
    elfSectionData (sampleDebugged 120) ".note.gnu.build-id" 1000 = some (sampleNote 120) ∧
      elfSectionData (sampleDebugged 120) ".gnu_debuglink" 1000 = some sampleLink ∧
      ¬ ((∃ d, elfBuildId (sampleDebugged 120) [] = some d ∧ BuildIdRight (sampleNote 120) d) ∧
        ∃ d, elfDebugLink (sampleDebugged 120) [] = some d ∧ DebugLinkRight sampleLink d) := by
  refine ⟨by decide +kernel, by decide +kernel, ?_⟩
  rintro ⟨⟨d, hd, hright⟩, -⟩
  have hout : (elfBuildId (sampleDebugged 120) []).map (fun d => d.out.length) = some 120 := by
    decide +kernel
  rw [hd, Option.map_some, Option.some.injEq] at hout
  exact absurd hright.fits (by omega)

end Memleax
