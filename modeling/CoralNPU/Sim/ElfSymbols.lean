import CoralNPU.Sim.Elf

namespace CoralNPU.Sim

open Lib

/-!
# Accesses and symbols of an ELF file

* `Symbol`, `symbols` — the symbols of a file, in symbol-table order.
* `TablesInBounds` — the tables that the search reads lie in the file.
* `Searches`, `findSymbol_searches` — the search gives the first defined symbol of the name, or fails.
* `elf_inBounds` — the loader and the search make no access outside of the file.
-/

/-! ### The symbols of a file -/

/-- A symbol with the name that its string table gives it, if the string ends there. -/
structure Symbol where
  name : Option (List UInt8)
  value : UInt32
  size : UInt32
  shndx : UInt16

/-- A defined symbol of the given name. -/
def Symbol.isNamed (symbolName : CString) (s : Symbol) : Bool :=
  decide (s.shndx ≠ shnUndef ∧ s.name = some symbolName.bytes)

/-- The value and the size. -/
def Symbol.entry (s : Symbol) : UInt32 × UInt32 := (s.value, s.size)

/-- The file header of a file that is long enough. -/
def ehdrOf (image : List UInt8) : Ehdr := .ofBytes ((image.drop 0).take 52)

/-- The `i`-th program header of a file that is long enough. -/
def phdrAt (image : List UInt8) (ehdr : Ehdr) (i : Nat) : Phdr :=
  .ofBytes ((image.drop (ehdr.phoff.toNat + i * 32)).take 32)

/-- The `i`-th section header of a file that is long enough. -/
def shdrAt (image : List UInt8) (ehdr : Ehdr) (i : Nat) : Shdr :=
  .ofBytes ((image.drop (ehdr.shoff.toNat + i * 40)).take 40)

/-- The `j`-th entry of a symbol table of a file that is long enough. -/
def symAt (image : List UInt8) (symbolSection : Shdr) (j : Nat) : Sym :=
  .ofBytes ((image.drop (symbolSection.offset.toNat + j * 16)).take 16)

/-- The bytes of a section. -/
def sectionBytes (image : List UInt8) (shdr : Shdr) : List UInt8 :=
  (image.drop shdr.offset.toNat).take shdr.size.toNat

/-- The symbol of an entry, named by a string table. -/
def symbolAt (image : List UInt8) (symbolSection : Shdr) (stringTable : List UInt8) (j : Nat) :
    Symbol :=
  let sym := symAt image symbolSection j
  ⟨cString (stringTable.drop sym.name.toNat), sym.value, sym.size, sym.shndx⟩

/-- The symbols of section `i`, if it is a symbol table. -/
def sectionSymbols (image : List UInt8) (ehdr : Ehdr) (i : Nat) : List Symbol :=
  let symbolSection := shdrAt image ehdr i
  if symbolSection.type = shtSymtab then
    (List.range (symbolSection.size.toNat / 16)).map
      (symbolAt image symbolSection
        (sectionBytes image (shdrAt image ehdr symbolSection.link.toNat)))
  else []

/-- The symbols of a file, in symbol-table order. -/
def symbols (image : List UInt8) : List Symbol :=
  (List.range (ehdrOf image).shnum.toNat).flatMap (sectionSymbols image (ehdrOf image))

/-- Section `i` is no symbol table, or one that lies in the file, as its string table does. -/
def SymtabInBounds (image : List UInt8) (ehdr : Ehdr) (i : Nat) : Prop :=
  let symbolSection := shdrAt image ehdr i
  let stringSection := shdrAt image ehdr symbolSection.link.toNat
  symbolSection.type = shtSymtab → symbolSection.entsize = 16 ∧
    symbolSection.link.toNat < ehdr.shnum.toNat ∧
    symbolSection.offset.toNat + symbolSection.size.toNat ≤ image.length ∧
    stringSection.offset.toNat + stringSection.size.toNat ≤ image.length

/-- The section headers and the symbol tables lie in the file. -/
def TablesInBounds (image : List UInt8) : Prop :=
  (ehdrOf image).shentsize = 40 ∧
    (ehdrOf image).shoff.toNat + (ehdrOf image).shnum.toNat * 40 ≤ image.length ∧
    ∀ i < (ehdrOf image).shnum.toNat, SymtabInBounds image (ehdrOf image) i

instance (image : List UInt8) (ehdr : Ehdr) (i : Nat) : Decidable (SymtabInBounds image ehdr i) :=
  inferInstanceAs (Decidable (_ → _))

instance (image : List UInt8) : Decidable (TablesInBounds image) :=
  inferInstanceAs (Decidable (_ ∧ _))

/-! ### Records -/

theorem readRecord_eq {α : Type} {ofBytes : List UInt8 → α} {size : Nat} {image : List UInt8}
    {offset : Nat} (h : offset + size ≤ image.length) :
    readRecord ofBytes size image offset = .ok (ofBytes ((image.drop offset).take size)) := by
  rw [readRecord, readAt_eq h, ok_bind]
  rfl

/-- A file that is an ELF file has a file header. -/
theorem isElf32_true {image : List UInt8} (h : isElf32 image = .ok true) :
    52 ≤ image.length := by
  unfold isElf32 at h
  split at h
  · cases h
  next hlen => exact Nat.not_lt.mp hlen

theorem isElf32_inBounds (image : List UInt8) : InBounds (isElf32 image) := by
  unfold isElf32
  split
  · exact InBounds.ok _
  next hlen =>
    rw [readAt_eq (by omega), ok_bind]
    exact InBounds.ok _

theorem readEhdr_eq {image : List UInt8} (h : 52 ≤ image.length) :
    readEhdr image = .ok (ehdrOf image) :=
  readRecord_eq (by omega)

/-- The sum of two 32-bit numbers does not overflow 64 bits. -/
theorem toNat_add_toUInt64 (a b : UInt32) :
    (a.toUInt64 + b.toUInt64).toNat = a.toNat + b.toNat := by
  have ha := a.toNat_lt
  have hb := b.toNat_lt
  rw [UInt64.toNat_add, UInt32.toNat_toUInt64, UInt32.toNat_toUInt64]
  omega

/-- The end of a table of records of up to 64 bytes does not overflow 64 bits. -/
theorem toNat_tableEnd (offset : UInt32) (count : UInt16) {size : UInt64} (h : size.toNat ≤ 64) :
    (offset.toUInt64 + count.toUInt64 * size).toNat
      = offset.toNat + count.toNat * size.toNat := by
  have ho := offset.toNat_lt
  have hc := count.toNat_lt
  have hmul : count.toNat * size.toNat ≤ 2 ^ 16 * 64 :=
    Nat.mul_le_mul (Nat.le_of_lt hc) h
  rw [UInt64.toNat_add, UInt64.toNat_mul, UInt32.toNat_toUInt64, UInt16.toNat_toUInt64,
    Nat.mod_eq_of_lt (by omega), Nat.mod_eq_of_lt (by omega)]

/-! ### The symbol search -/

/-- The comparison finds out whether the string at the offset is the expected one. -/
theorem stringEquals_eq (stringTable : List UInt8) (stringOffset : UInt32) (expected : CString) :
    stringEquals stringTable stringOffset expected
      = .ok (decide (cString (stringTable.drop stringOffset.toNat) = some expected.bytes)) := by
  unfold stringEquals
  split
  next h =>
    rw [List.drop_eq_nil_of_le h]
    rfl
  next h =>
    have hlen : (stringTable.drop stringOffset.toNat).length
        = stringTable.length - stringOffset.toNat := List.length_drop
    rw [← hlen, memchr_eq rfl, ok_bind]
    by_cases hterminated : 0 ∈ stringTable.drop stringOffset.toNat
    · rw [if_pos (decide_eq_true hterminated), strcmp_eq expected.noNul hterminated]
    · rw [if_neg (by simpa using hterminated), cString, if_neg hterminated]
      rfl

/-- The search of one symbol table gives its first defined symbol of the name. -/
theorem findInTable_eq {image : List UInt8} {symbolSection : Shdr} {stringTable : List UInt8}
    {symbolName : CString} {js : List Nat}
    (h : ∀ j ∈ js, symbolSection.offset.toNat + j * 16 + 16 ≤ image.length) :
    findInTable image symbolSection stringTable symbolName js
      = .ok (((js.map (symbolAt image symbolSection stringTable)).find?
          (·.isNamed symbolName)).map Symbol.entry) := by
  induction js with
  | nil => rfl
  | cons j js ih =>
    have hread : readSym image symbolSection j = .ok (symAt image symbolSection j) :=
      readRecord_eq (h j List.mem_cons_self)
    have hrest := ih fun k hk => h k (List.mem_cons_of_mem j hk)
    rw [findInTable, hread, ok_bind, List.map_cons]
    split
    next hundef =>
      rw [List.find?_cons_of_neg, hrest]
      simp [Symbol.isNamed, symbolAt, hundef]
    next hdef =>
      rw [stringEquals_eq, ok_bind]
      split
      next hne =>
        rw [List.find?_cons_of_neg, hrest]
        simpa [Symbol.isNamed, symbolAt, hdef] using hne
      next heq =>
        rw [List.find?_cons_of_pos]
        · rfl
        · simpa [Symbol.isNamed, symbolAt, hdef] using heq

/-- What a search of a list of symbols comes to: the first defined symbol of the name, an error
    that there is none, or another error, unless the tables are good. -/
def Searches (tables : Prop) (symbolName : CString) (list : List Symbol)
    (result : ElfRead (UInt32 × UInt32)) : Prop :=
  match result with
  | .ok entry => (list.find? (·.isNamed symbolName)).map Symbol.entry = some entry
  | .error (.failed status) =>
    tables ∨ status.code = .notFound → list.find? (·.isNamed symbolName) = none
  | .error .outOfBounds => False

theorem Searches.inBounds {tables : Prop} {symbolName : CString} {list : List Symbol}
    {result : ElfRead (UInt32 × UInt32)} (h : Searches tables symbolName list result) :
    InBounds result := by
  rintro rfl
  exact h

/-- Fewer files with good tables. -/
theorem Searches.mono {tables tables' : Prop} {symbolName : CString} {list : List Symbol}
    {result : ElfRead (UInt32 × UInt32)} (h : Searches tables symbolName list result)
    (htables : tables' → tables) : Searches tables' symbolName list result := by
  unfold Searches at h ⊢
  split at h
  · exact h
  · exact fun hor => h (hor.imp_left htables)
  · exact h

/-- Symbols in front that are not of the name do not matter. -/
theorem Searches.append {tables : Prop} {symbolName : CString} {list : List Symbol}
    {result : ElfRead (UInt32 × UInt32)} (h : Searches tables symbolName list result)
    {front : List Symbol} (hfront : front.find? (·.isNamed symbolName) = none) :
    Searches tables symbolName (front ++ list) result := by
  have hfind : (front ++ list).find? (·.isNamed symbolName)
      = list.find? (·.isNamed symbolName) := by
    rw [List.find?_append, hfront, Option.none_or]
  unfold Searches at h ⊢
  rw [hfind]
  exact h

/-- An error that is made when the tables are bad. -/
theorem searches_failed {tables : Prop} (hbad : ¬ tables) {symbolName : CString} {list : List Symbol}
    {status : Status} (hcode : status.code ≠ .notFound) :
    Searches tables symbolName list (.error (.failed status)) :=
  fun h => (h.elim hbad hcode).elim

/-- **The search of the sections**, when the section header table lies in the file. -/
theorem findInSections_searches {image : List UInt8} {ehdr : Ehdr} {symbolName : CString}
    (htable : ehdr.shoff.toNat + ehdr.shnum.toNat * 40 ≤ image.length) {is : List Nat}
    (his : ∀ i ∈ is, i < ehdr.shnum.toNat) :
    Searches (∀ i ∈ is, SymtabInBounds image ehdr i) symbolName
      (is.flatMap (sectionSymbols image ehdr)) (findInSections image ehdr symbolName is) := by
  have hread : ∀ i, i < ehdr.shnum.toNat → readShdr image ehdr i = .ok (shdrAt image ehdr i) :=
    fun i hi => readRecord_eq (by omega)
  induction is with
  | nil => exact fun _ => rfl
  | cons i is ih =>
    have hrest := ih fun k hk => his k (List.mem_cons_of_mem i hk)
    have htail : (∀ k ∈ i :: is, SymtabInBounds image ehdr k) → ∀ k ∈ is, SymtabInBounds image ehdr k :=
      fun h k hk => h k (List.mem_cons_of_mem i hk)
    rw [List.flatMap_cons, findInSections, hread i (his i List.mem_cons_self), ok_bind]
    split
    next htype =>
      -- not a symbol table
      apply (hrest.mono htail).append
      rw [sectionSymbols, if_neg htype]
      rfl
    next htype =>
    have htype := not_not.mp htype
    have hgood : (∀ k ∈ i :: is, SymtabInBounds image ehdr k) → _ := fun h =>
      h i List.mem_cons_self htype
    split
    next hbad =>
      refine searches_failed (fun h => ?_) (by decide)
      obtain ⟨hentsize, hlink, -⟩ := hgood h
      rcases hbad with hbad | hbad
      · exact hbad hentsize
      · rw [ge_iff_le, UInt32.le_iff_toNat_le, UInt16.toNat_toUInt32] at hbad
        omega
    next hlink =>
    obtain ⟨-, hlink⟩ := not_or.mp hlink
    have hlink : (shdrAt image ehdr i).link.toNat < ehdr.shnum.toNat := by
      rw [ge_iff_le, UInt32.not_le, UInt32.lt_iff_toNat_lt, UInt16.toNat_toUInt32] at hlink
      exact hlink
    rw [hread _ hlink, ok_bind]
    simp only [toNat_add_toUInt64]
    split
    next hbad =>
      refine searches_failed (fun h => ?_) (by decide)
      obtain ⟨-, -, hsymbols, hstrings⟩ := hgood h
      omega
    next hends =>
    obtain ⟨hsymbols, hstrings⟩ := not_or.mp hends
    rw [readAt_eq (Nat.not_lt.mp hstrings), ok_bind]
    have hentries : ∀ j ∈ List.range ((shdrAt image ehdr i).size.toNat / 16),
        (shdrAt image ehdr i).offset.toNat + j * 16 + 16 ≤ image.length := by
      intro j hj
      have := List.mem_range.mp hj
      omega
    rw [findInTable_eq hentries, ok_bind]
    have hsection : sectionSymbols image ehdr i
        = (List.range ((shdrAt image ehdr i).size.toNat / 16)).map
          (symbolAt image (shdrAt image ehdr i)
            (sectionBytes image (shdrAt image ehdr (shdrAt image ehdr i).link.toNat))) :=
      if_pos htype
    rw [← sectionBytes, ← hsection]
    split
    next entry hfound =>
      obtain ⟨s, hs, rfl⟩ := Option.map_eq_some_iff.mp hfound
      show (List.find? _ _).map Symbol.entry = _
      rw [List.find?_append, hs]
      rfl
    next hnone => exact (hrest.mono htail).append (Option.map_eq_none_iff.mp hnone)

/-- **The symbol search** of a file that has a header. -/
theorem findSymbol_searches {image : List UInt8} (h : 52 ≤ image.length)
    (symbolName : CString) :
    Searches (TablesInBounds image) symbolName (symbols image) (findSymbol image symbolName) := by
  rw [findSymbol, readEhdr_eq h, ok_bind]
  split
  next hsize => exact searches_failed (fun htables => hsize htables.1) (by decide)
  · simp only [toNat_tableEnd _ _ (show (40 : UInt64).toNat ≤ 64 by decide)]
    split
    next htable =>
      refine searches_failed (fun htables => ?_) (by decide)
      exact Nat.not_le.mpr htable htables.2.1
    next htable =>
      refine (findInSections_searches (Nat.not_lt.mp htable) fun i hi => List.mem_range.mp hi).mono
        fun htables i hi => ?_
      exact htables.2.2 i (List.mem_range.mp hi)

/-! ### The accesses of the loader -/

/-- A sequence is in bounds when its parts are. -/
theorem inBounds_traced_bind {α β : Type} {x : Loader α} {f : α → Loader β}
    (hx : InBounds x.result) (hf : ∀ a, x.result = .ok a → InBounds (f a).result) :
    InBounds (x >>= f).result := by
  rw [Traced.bind_result]
  exact hx.bind hf

/-- A copy is in bounds when its bytes lie in the buffer. -/
theorem copySegment_inBounds {address : UInt32} {source : List UInt8} {offset : Nat}
    {size : UInt64} (h : offset + size.toNat ≤ source.length) :
    InBounds (copySegment address source offset size).result := by
  have hwrite : InBounds (writeFrom address source offset size.toNat).result := by
    apply inBounds_traced_bind
    · rw [readAt_eq h]
      exact InBounds.ok _
    · exact fun _ _ => InBounds.ok _
  unfold copySegment
  split
  · exact InBounds.ok _
  split
  · exact hwrite
  split
  · exact hwrite
  split
  · exact hwrite
  · exact InBounds.failed _

/-- The zeros of every chunk lie in the buffer of zeros. -/
theorem zeroFill_inBounds (zeroAddress : UInt32) (remaining : UInt64) :
    InBounds (zeroFill zeroAddress remaining).result := by
  induction zeroAddress, remaining using zeroFill.induct with
  | case1 zeroAddress =>
    rw [zeroFill, if_pos rfl]
    exact InBounds.ok _
  | case2 zeroAddress remaining hne ih =>
    rw [zeroFill, if_neg hne]
    apply inBounds_traced_bind
    · apply copySegment_inBounds
      have hle := (zeroChunk_le remaining).2
      rw [zeroBuffer, List.length_replicate]
      omega
    · exact fun _ _ => ih

theorem loadSegment_inBounds {image : List UInt8} {ehdr : Ehdr} {i : Nat} {executable : Bool}
    (h : ehdr.phoff.toNat + i * 32 + 32 ≤ image.length) :
    InBounds (loadSegment image ehdr executable i).result := by
  apply inBounds_traced_bind
  · rw [readPhdr, readRecord_eq h]
    exact InBounds.ok _
  intro phdr _
  split
  · exact InBounds.ok _
  split
  · exact InBounds.failed _
  split
  · exact InBounds.failed _
  next hend =>
  rw [toNat_add_toUInt64] at hend
  apply inBounds_traced_bind
  · show InBounds (validateSegment _ _)
    unfold validateSegment
    split
    · exact InBounds.ok _
    split
    · exact InBounds.ok _
    · exact InBounds.failed _
  intro _ _
  apply inBounds_traced_bind
  · apply copySegment_inBounds
    rw [UInt32.toNat_toUInt64]
    exact Nat.not_lt.mp hend
  intro _ _
  apply inBounds_traced_bind
  · unfold fillSegment
    split
    · exact zeroFill_inBounds _ _
    · exact InBounds.ok _
  · exact fun _ _ => InBounds.ok _

theorem loadSegments_inBounds {image : List UInt8} {ehdr : Ehdr}
    (htable : ehdr.phoff.toNat + ehdr.phnum.toNat * 32 ≤ image.length) {is : List Nat} :
    ∀ {executable : Bool}, (∀ i ∈ is, i < ehdr.phnum.toNat) →
      InBounds (loadSegments image ehdr executable is).result := by
  induction is with
  | nil => exact fun _ => InBounds.ok _
  | cons i is ih =>
    intro executable his
    have hi := his i List.mem_cons_self
    apply inBounds_traced_bind
    · exact loadSegment_inBounds (by omega)
    · exact fun _ _ => ih fun k hk => his k (List.mem_cons_of_mem i hk)

theorem findLayout_inBounds {image : List UInt8} (h : 52 ≤ image.length) (startPc : UInt32) :
    InBounds (findLayout image startPc) := by
  apply (findSymbol_searches h _).inBounds.bind
  intro _ _
  apply (findSymbol_searches h _).inBounds.bind
  intro _ _
  apply (findSymbol_searches h _).inBounds.bind
  exact fun _ _ => InBounds.ok _

/-- The loader makes no access outside of the file. -/
theorem loadElf_inBounds (image : List UInt8) : InBounds (loadElf image).result := by
  apply inBounds_traced_bind
  · apply inBounds_traced_bind
    · exact isElf32_inBounds image
    intro isElf hisElf
    split
    · exact InBounds.failed _
    next hbang =>
    obtain rfl : isElf = true := by simpa using hbang
    have hlen := isElf32_true hisElf
    apply inBounds_traced_bind
    · show InBounds (readEhdr image)
      rw [readEhdr_eq hlen]
      exact InBounds.ok _
    intro ehdr _
    split
    · exact InBounds.failed _
    split
    · exact InBounds.failed _
    rw [toNat_tableEnd _ _ (show (32 : UInt64).toNat ≤ 64 by decide)]
    split
    · exact InBounds.failed _
    next htable =>
    apply inBounds_traced_bind
    · exact loadSegments_inBounds (Nat.not_lt.mp htable) fun i hi => List.mem_range.mp hi
    intro executable _
    split
    · exact InBounds.failed _
    · exact findLayout_inBounds hlen _
  · intro layout _
    cases checkLayout layout with
    | ok u => exact InBounds.ok _
    | error failure => exact InBounds.failed _

/-- **Parsing an ELF file makes no access outside of the file**, whatever its bytes are; the
    comparison with a string stays in the string table.  All loops end.  Of a file that is an
    ELF file, the search gives the first defined symbol of the name in symbol-table order, or
    an error, and the error that there is none only if there is none.  Where the tables lie in the
    file, a symbol that is defined is found. -/
theorem elf_inBounds (image : List UInt8) (symbolName : CString) :
    InBounds (isElf32 image) ∧ InBounds (loadElf image).result ∧
      (isElf32 image = .ok true →
        InBounds (findSymbol image symbolName) ∧
        (∀ value size, findSymbol image symbolName = .ok (value, size) →
          ∃ s, (symbols image).find? (·.isNamed symbolName) = some s ∧
            s.value = value ∧ s.size = size) ∧
        (∀ status, findSymbol image symbolName = .error (.failed status) →
          status.code = .notFound → ∀ s ∈ symbols image, s.isNamed symbolName = false) ∧
        (TablesInBounds image → ∀ s, (symbols image).find? (·.isNamed symbolName) = some s →
          findSymbol image symbolName = .ok (s.value, s.size))) := by
  refine ⟨isElf32_inBounds image, loadElf_inBounds image, fun hisElf => ?_⟩
  have hsearch := findSymbol_searches (isElf32_true hisElf) symbolName
  refine ⟨hsearch.inBounds, fun value size hfound => ?_, fun status hfailed hcode => ?_,
    fun htables s hs => ?_⟩
  · rw [hfound] at hsearch
    obtain ⟨s, hs, hentry⟩ := Option.map_eq_some_iff.mp hsearch
    obtain ⟨hvalue, hsize⟩ := Prod.mk.inj hentry
    exact ⟨s, hs, hvalue, hsize⟩
  · rw [hfailed] at hsearch
    have hnone := hsearch (.inr hcode)
    intro s hs
    simpa using List.find?_eq_none.mp hnone s hs
  · cases hfound : findSymbol image symbolName with
    | ok entry =>
      rw [hfound] at hsearch
      have hentry : (some s).map Symbol.entry = some entry := by
        rw [← hs]
        exact hsearch
      exact congrArg Except.ok (Option.some.inj hentry).symm
    | error failure =>
      rw [hfound] at hsearch
      cases failure with
      | failed status =>
        have hnone := hsearch (.inl htables)
        rw [hs] at hnone
        cases hnone
      | outOfBounds => exact hsearch.elim

/-- The end of the heap is found in the small executable. -/
theorem elf_inBounds_smallElf : findSymbol smallElf heapEndName = .ok (0x00018000, 0) := by
  have hsearch := ((elf_inBounds smallElf heapEndName).2.2 (by decide +kernel)).2.2.2 (by decide +kernel)
  have hentry : ((symbols smallElf).find? (·.isNamed heapEndName)).map (fun s => (s.value, s.size))
      = some (0x00018000, 0) := by decide +kernel
  obtain ⟨s, hs, hvalue⟩ := Option.map_eq_some_iff.mp hentry
  exact hvalue ▸ hsearch s hs

end CoralNPU.Sim
