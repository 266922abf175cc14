import Mathlib.Data.List.Basic
import MeetixOs.Core.FromStr

/-!
# The kernel's code-symbol table

`LibSymbols` reads the table of the kernel's functions that the build writes into the
executable: `llvm-nm -n` lists the text symbols by address, `awk` keeps the address and the
name of each, and `rustfilt` demangles the names, which may then hold spaces
(`<T as core::fmt::Debug>::fmt`).  `CodeSymbols::new` takes the text up to the first NUL
(`str_len`), cuts it into lines, and makes a `CodeSymbol` of each line with
`CodeSymbol::from_raw_line`, which cuts the line at ASCII whitespace and keeps its first part
as a hexadecimal address and its second part as the name.  `symbol_at` answers the symbol
with the greatest address at or below an address, for the stack traces.

The storage is read as text, a list of characters.  `renderStorage` is the text the build
writes: each line as hexadecimal digits, a space and the name, with a line feed after it,
then the NUL.

**Results.**
* `fromRawLine_renderLine`: a rendered line is read back when its name has no ASCII
  whitespace.
* `new_renderStorage`: a nonempty table of such names is read back whole, in order.
* `symbolAt_eq_none_iff`, `symbolAt_spec`: over addresses in increasing order, `symbol_at`
  answers the symbol with the greatest address at or below the one asked, and nothing below
  the first.
* `codeSymbols_name_truncated`: a name with a space is cut at the space, and an empty table
  makes `new` panic.
-/

namespace MeetixOs
namespace Symbols

/-- `u8::is_ascii_whitespace`: space, tab, line feed, form feed and carriage return. -/
def isAsciiWhitespace (c : Char) : Bool :=
  c == ' ' || c == '\t' || c == '\n' || c == '\x0c' || c == '\r'

/-- `str::split_ascii_whitespace`: the nonempty runs between ASCII whitespace. -/
def splitAsciiWhitespace (s : List Char) : List (List Char) :=
  (s.splitOnP isAsciiWhitespace).filter fun part => !part.isEmpty

/-- `helps::str::str_len`: the index of the first NUL, and `0` without one. -/
def strLen (slice : List Char) : Nat :=
  match slice.findIdx? (· == '\x00') with
  | some i => i
  | none => 0

/-- `CodeSymbol`. -/
structure CodeSymbol where
  mVirtAddr : Nat
  mSymbolName : List Char
  deriving DecidableEq, Repr

/-- `CodeSymbol::from_raw_line`. -/
def CodeSymbol.fromRawLine (rawLine : List Char) : Option CodeSymbol := do
  let lineParts := splitAsciiWhitespace rawLine
  let strVirtAddr ← lineParts.head?
  let virtAddr ← if strVirtAddr.isEmpty then none else fromStrRadix strVirtAddr 16
  let strSymbolName ← lineParts.tail.head?
  let symbolName ← if strSymbolName.isEmpty then none else some strSymbolName
  return ⟨virtAddr, symbolName⟩

/-- `CodeSymbols`. -/
structure CodeSymbols where
  mCodeSymbols : List CodeSymbol
  deriving DecidableEq, Repr

namespace CodeSymbols

/-- `CodeSymbols::new` over the storage: `none` is the panic of `assert_ne!` when the text
before the NUL is empty. -/
def new (storage : List Char) : Option CodeSymbols :=
  let symbolsLen := strLen storage
  if symbolsLen = 0 then none
  else some ⟨((storage.take symbolsLen).splitOn '\n').filterMap CodeSymbol.fromRawLine⟩

/-- `CodeSymbols::symbol_at`: the first symbol from the end of the table that starts at or
below the address. -/
def symbolAt (self : CodeSymbols) (virtAddr : Nat) : Option CodeSymbol :=
  self.mCodeSymbols.reverse.find? fun codeSymbol => codeSymbol.mVirtAddr ≤ virtAddr

end CodeSymbols

/-- A line as the build writes it: the address as the hexadecimal digits `hex`, most
significant first, a space, and the name. -/
def renderLine (hex : List Nat) (name : List Char) : List Char :=
  hex.map Nat.digitChar ++ ' ' :: name

/-- The storage as the build fills it: each line followed by a line feed, then a NUL. -/
def renderStorage (lines : List (List Nat × List Char)) : List Char :=
  (lines.map fun line => renderLine line.1 line.2 ++ ['\n']).flatten ++ ['\x00']

/-- The symbol a rendered line stands for. -/
def lineSymbol (line : List Nat × List Char) : CodeSymbol :=
  ⟨digitsValueFrom 16 0 line.1, line.2⟩

/-- A line the build writes and the reader can take back: nonempty hexadecimal digits whose
value is a `usize`, and a nonempty name without ASCII whitespace or NUL. -/
structure LineOk (line : List Nat × List Char) : Prop where
  hex_ne_nil : line.1 ≠ []
  hex_lt : ∀ d ∈ line.1, d < 16
  value_le : digitsValueFrom 16 0 line.1 ≤ usizeMax
  name_ne_nil : line.2 ≠ []
  name_not_space : ∀ c ∈ line.2, isAsciiWhitespace c = false
  name_not_nul : '\x00' ∉ line.2

section Render

theorem digitChar_not_space : ∀ d < 16,
    isAsciiWhitespace (Nat.digitChar d) = false ∧ Nat.digitChar d ≠ '\x00' := by
  decide

theorem strLen_append_nul {text : List Char} (h : '\x00' ∉ text) :
    strLen (text ++ ['\x00']) = text.length := by
  have hidx : (text ++ ['\x00']).findIdx? (· == '\x00') = some text.length := by
    have hnone : text.findIdx? (· == '\x00') = none := by
      rw [List.findIdx?_eq_none_iff]
      intro c hc
      have hne : c ≠ '\x00' := fun he => h (he ▸ hc)
      simpa using hne
    rw [List.findIdx?_append, hnone]
    simp
  rw [strLen, hidx]

/-- The lines of the storage, once each has its line feed: the rendered lines and a last,
empty one. -/
theorem flatten_map_append_sep (sep : Char) (ls : List (List Char)) :
    (ls.map fun l => l ++ [sep]).flatten = [sep].intercalate (ls ++ [[]]) := by
  induction ls with
  | nil => rfl
  | cons l ls ih =>
    rw [List.map_cons, List.flatten_cons, ih, List.cons_append,
      List.intercalate_cons_of_ne_nil (by simp), List.append_assoc]

/-- A rendered line cuts into its digits and its name. -/
theorem splitAsciiWhitespace_renderLine {line : List Nat × List Char} (hl : LineOk line) :
    splitAsciiWhitespace (renderLine line.1 line.2) = [line.1.map Nat.digitChar, line.2] := by
  have hdigits : ∀ c ∈ line.1.map Nat.digitChar, isAsciiWhitespace c = false := by
    intro c hc
    obtain ⟨d, hd, rfl⟩ := List.mem_map.mp hc
    exact (digitChar_not_space d (hl.hex_lt d hd)).1
  rw [splitAsciiWhitespace, renderLine,
    List.splitOnP_append_cons_of_forall_mem hdigits ' ' rfl,
    List.splitOnP_eq_singleton hl.name_not_space]
  simp [hl.hex_ne_nil, hl.name_ne_nil]

/-- `from_raw_line` reads back a line the build writes. -/
theorem fromRawLine_renderLine {line : List Nat × List Char} (hl : LineOk line) :
    CodeSymbol.fromRawLine (renderLine line.1 line.2) = some (lineSymbol line) := by
  have hhex : fromStrRadix (line.1.map Nat.digitChar) 16 =
      some (digitsValueFrom 16 0 line.1) :=
    fromStrRadix_digitChars (by decide) (le_refl 16) hl.hex_ne_nil hl.hex_lt hl.value_le
  simp [CodeSymbol.fromRawLine, splitAsciiWhitespace_renderLine hl, hl.hex_ne_nil,
    hl.name_ne_nil, hhex, lineSymbol]

theorem fromRawLine_nil : CodeSymbol.fromRawLine [] = none := rfl

/-- A line the reader takes back holds neither a line feed nor a NUL. -/
theorem LineOk.not_sep {line : List Nat × List Char} (hl : LineOk line) {c : Char}
    (hc : c ∈ renderLine line.1 line.2) : c ≠ '\n' ∧ c ≠ '\x00' := by
  rcases List.mem_append.mp hc with hc | hc
  · obtain ⟨d, hd, rfl⟩ := List.mem_map.mp hc
    obtain ⟨hsp, hnul⟩ := digitChar_not_space d (hl.hex_lt d hd)
    exact ⟨fun h => absurd (h ▸ hsp) (by decide), hnul⟩
  · rcases List.mem_cons.mp hc with rfl | hc
    · decide
    · exact ⟨fun h => absurd (h ▸ hl.name_not_space c hc) (by decide),
        fun h => hl.name_not_nul (h ▸ hc)⟩

/-- The storage: its rendered lines joined by line feeds, with a last, empty line, then its
NUL. -/
theorem renderStorage_eq (lines : List (List Nat × List Char)) :
    renderStorage lines =
      ['\n'].intercalate ((lines.map fun line => renderLine line.1 line.2) ++ [[]]) ++
        ['\x00'] := by
  rw [renderStorage, ← flatten_map_append_sep, List.map_map]
  rfl

/-- The text before the NUL holds no NUL, so `str_len` stops at the end of it. -/
theorem nul_not_mem_lines {lines : List (List Nat × List Char)}
    (hok : ∀ line ∈ lines, LineOk line) :
    '\x00' ∉ ['\n'].intercalate ((lines.map fun line => renderLine line.1 line.2) ++ [[]]) := by
  rw [← flatten_map_append_sep, List.map_map]
  simp only [List.mem_flatten, List.mem_map, Function.comp_apply, not_exists, not_and]
  intro l hl hc
  obtain ⟨line, hline, rfl⟩ := hl
  rcases List.mem_append.mp hc with hc | hc
  · exact ((hok line hline).not_sep hc).2 rfl
  · exact absurd hc (by decide)

/-- A nonempty table of lines the reader can take back is read back whole, in order. -/
theorem new_renderStorage {lines : List (List Nat × List Char)} (hne : lines ≠ [])
    (hok : ∀ line ∈ lines, LineOk line) :
    CodeSymbols.new (renderStorage lines) = some ⟨lines.map lineSymbol⟩ := by
  have hnul := nul_not_mem_lines hok
  have hlen : strLen (renderStorage lines) ≠ 0 := by
    rw [renderStorage_eq, strLen_append_nul hnul]
    obtain ⟨line, rest, rfl⟩ := List.exists_cons_of_ne_nil hne
    simp [List.intercalate_cons_of_ne_nil, renderLine]
  rw [CodeSymbols.new, if_neg hlen, renderStorage_eq, strLen_append_nul hnul,
    List.take_left, List.splitOn_intercalate]
  · rw [List.filterMap_append, List.filterMap_map]
    simp only [List.filterMap_cons, fromRawLine_nil, List.filterMap_nil, List.append_nil]
    rw [Option.some.injEq, CodeSymbols.mk.injEq, List.filterMap_eq_map_iff_forall_eq_some]
    intro line hline
    exact fromRawLine_renderLine (hok line hline)
  · intro l hl
    rcases List.mem_append.mp hl with hl | hl
    · obtain ⟨line, hline, rfl⟩ := List.mem_map.mp hl
      exact fun hc => ((hok line hline).not_sep hc).1 rfl
    · rw [List.mem_singleton.mp hl]
      exact List.not_mem_nil
  · simp

/-- The build's line for `kmain` at `0x1000` is read back. -/
theorem new_renderStorage_kmain :
    (∀ line ∈ [([1, 0, 0, 0], "kmain".toList)], LineOk line) ∧
      CodeSymbols.new (renderStorage [([1, 0, 0, 0], "kmain".toList)]) =
        some ⟨[([1, 0, 0, 0], "kmain".toList)].map lineSymbol⟩ := by
  have hok : ∀ line ∈ [([1, 0, 0, 0], "kmain".toList)], LineOk line := by
    intro line hline
    rw [List.mem_singleton.mp hline]
    exact ⟨by decide, by decide, by decide, by decide, by simp [isAsciiWhitespace], by decide⟩
  exact ⟨hok, new_renderStorage (List.cons_ne_nil _ _) hok⟩

end Render

section SymbolAt

variable {table : List CodeSymbol} {virtAddr : Nat}

/-- `symbol_at` finds nothing exactly below every symbol. -/
theorem symbolAt_eq_none_iff :
    CodeSymbols.symbolAt ⟨table⟩ virtAddr = none ↔ ∀ s ∈ table, virtAddr < s.mVirtAddr := by
  simp [CodeSymbols.symbolAt]

/-- Over addresses in increasing order, `symbol_at` answers the symbol with the greatest
address at or below the one asked. -/
theorem symbolAt_spec (hsorted : table.Pairwise fun a b => a.mVirtAddr < b.mVirtAddr)
    {s : CodeSymbol} (h : CodeSymbols.symbolAt ⟨table⟩ virtAddr = some s) :
    s ∈ table ∧ s.mVirtAddr ≤ virtAddr ∧
      ∀ s' ∈ table, s'.mVirtAddr ≤ virtAddr → s'.mVirtAddr ≤ s.mVirtAddr := by
  obtain ⟨hp, after, before, hrev, hafter⟩ := List.find?_eq_some_iff_append.mp h
  have htable : table = before.reverse ++ s :: after.reverse := by
    rw [← List.reverse_reverse table, hrev]
    simp
  simp only [decide_eq_true_eq] at hp
  refine ⟨by rw [htable]; simp, hp, fun s' hs' hle => ?_⟩
  rw [htable] at hs' hsorted
  rw [List.pairwise_append, List.pairwise_cons] at hsorted
  rcases List.mem_append.mp hs' with hs' | hs'
  · exact Nat.le_of_lt (hsorted.2.2 s' hs' s List.mem_cons_self)
  · rcases List.mem_cons.mp hs' with rfl | hs'
    · exact Nat.le_refl _
    · have := hafter s' (List.mem_reverse.mp hs')
      simp only [Bool.not_eq_true', decide_eq_false_iff_not, Nat.not_le] at this
      omega

/-- Between the symbols at `0x1000` and `0x2000`, `symbol_at(0x1800)` answers the first. -/
theorem symbolAt_spec_between :
    [(⟨0x1000, ['a']⟩ : CodeSymbol), ⟨0x2000, ['b']⟩].Pairwise
        (fun a b => a.mVirtAddr < b.mVirtAddr) ∧
      CodeSymbols.symbolAt ⟨[⟨0x1000, ['a']⟩, ⟨0x2000, ['b']⟩]⟩ 0x1800 = some ⟨0x1000, ['a']⟩ ∧
      ((⟨0x1000, ['a']⟩ : CodeSymbol) ∈ [(⟨0x1000, ['a']⟩ : CodeSymbol), ⟨0x2000, ['b']⟩] ∧
        0x1000 ≤ 0x1800 ∧
        ∀ s' ∈ [(⟨0x1000, ['a']⟩ : CodeSymbol), ⟨0x2000, ['b']⟩],
          s'.mVirtAddr ≤ 0x1800 → s'.mVirtAddr ≤ 0x1000) := by
  have hsorted : [(⟨0x1000, ['a']⟩ : CodeSymbol), ⟨0x2000, ['b']⟩].Pairwise
      (fun a b => a.mVirtAddr < b.mVirtAddr) := by decide
  have hfound : CodeSymbols.symbolAt ⟨[⟨0x1000, ['a']⟩, ⟨0x2000, ['b']⟩]⟩ 0x1800 =
      some ⟨0x1000, ['a']⟩ := by decide
  exact ⟨hsorted, hfound, symbolAt_spec hsorted hfound⟩

end SymbolAt

/-- Rendered by the build, the demangled name `<T as core::fmt::Debug>::fmt` is read back as
`<T`; a table without lines makes `new` panic. -/
theorem codeSymbols_name_truncated :
    CodeSymbols.new (renderStorage [([1, 0, 0, 0], "<T as core::fmt::Debug>::fmt".toList)]) =
        some ⟨[⟨0x1000, "<T".toList⟩]⟩ ∧
      CodeSymbols.new (renderStorage []) = none := by
  constructor <;> decide

end Symbols
end MeetixOs
