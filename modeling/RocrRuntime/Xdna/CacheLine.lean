import Mathlib.Data.Nat.Bitwise

/-!
# Addresses and cache lines

`clflush_data` (`core/inc/amd_xdna_driver.h`) syncs a buffer object without a
round trip to the XDNA driver, by flushing the CPU cache lines under it. Its
arithmetic is on `uintptr_t` and on a `const char *` cursor, both 64-bit
unsigned words on the hosts the driver runs on: `Uintptr` is `BitVec 64`, so
every `+` and `-` of the model wraps modulo `2⁶⁴` as the machine does.

This module says what the flush is *for*, on plain `Nat` byte addresses: the
cache lines of `cs` bytes that hold a byte of `[s, s + len)`.
`overlappingLines` lists them from the line of the first byte through the line
of the last; `LineOverlaps` reads membership off the byte range directly, and
`mem_overlappingLines` identifies the two. The last section evaluates the
`| (cacheline_size - 1)` mask with which the code finds the last byte of the
last line.

## Main results

* `lineOverlaps_iff` — a line holds a byte of the range iff the range is
  nonempty and the line lies between the lines of its first and last bytes.
* `mem_overlappingLines`, `nodup_overlappingLines` — the listed lines are
  exactly the overlapping ones, each listed once.
* `head?_overlappingLines`, `getLast?_overlappingLines` — the first and last
  lines are those of the first and last bytes.
* `overlappingLines_append_of_mod_eq_zero`, `overlappingLines_append_tail` —
  two abutting ranges overlap the lines of their union, sharing the boundary
  line when the boundary is not at a line start.
* `range'_mul_add`, `map_div_map_mul_add` — a cursor advancing by one line
  size visits consecutive lines, at a fixed offset within each.
* `lor_two_pow_sub_one` — or-ing the low mask moves an address to
  `lineEnd`, the last byte of its line.
* `line_end_add_lt` — below the top line of the address space, a line end
  leaves room for one more line.
* `flushedLines_eq_overlappingLines` — on a nonempty range, the closed form of
  what the loop flushes is the list of overlapping lines.
-/

namespace RocrRuntime.Xdna.CacheLine

/-- `uintptr_t`, and the `const char *` cursor of `clflush_data`: a 64-bit
unsigned word whose arithmetic wraps modulo `2⁶⁴`. -/
abbrev Uintptr := BitVec 64

/-! ## The lines under a byte range -/

/-- Cache line `line` (lines of `cs` bytes) holds at least one byte of
`[s, s + len)`. -/
def LineOverlaps (cs s len line : Nat) : Prop :=
  ∃ b, s ≤ b ∧ b < s + len ∧ b / cs = line

/-- The lines of `cs` bytes that overlap `[s, s + len)`, in increasing order:
from the line of the first byte through the line of the last byte. -/
def overlappingLines (cs s len : Nat) : List Nat :=
  if len = 0 then [] else List.range' (s / cs) ((s + len - 1) / cs + 1 - s / cs)

/-- A line holds a byte of `[s, s + len)` iff the range is nonempty and the
line lies between the line of `s` and the line of `s + len - 1`. -/
theorem lineOverlaps_iff {cs s len line : Nat} :
    LineOverlaps cs s len line ↔
      0 < len ∧ s / cs ≤ line ∧ line ≤ (s + len - 1) / cs := by
  constructor
  · rintro ⟨b, hsb, hbe, rfl⟩
    exact ⟨by omega, Nat.div_le_div_right hsb, Nat.div_le_div_right (by omega)⟩
  · rintro ⟨hlen, hlo, hhi⟩
    rcases Nat.eq_or_lt_of_le hlo with hFirst | hLater
    · exact ⟨s, Nat.le_refl s, by omega, hFirst⟩
    · -- a later line starts inside the range, at `line * cs`
      have hcs : 0 < cs := Nat.pos_of_ne_zero fun h => by simp [h] at hLater hhi; omega
      have hStart := (Nat.div_lt_iff_lt_mul hcs).1 hLater
      have hEnd := (Nat.le_div_iff_mul_le hcs).1 hhi
      exact ⟨line * cs, hStart.le, by omega, Nat.mul_div_cancel line hcs⟩

instance (cs s len line : Nat) : Decidable (LineOverlaps cs s len line) :=
  decidable_of_iff _ lineOverlaps_iff.symm

/-- **`overlappingLines` lists exactly the lines that hold a byte of the
range.** -/
theorem mem_overlappingLines {cs s len line : Nat} :
    line ∈ overlappingLines cs s len ↔ LineOverlaps cs s len line := by
  rw [lineOverlaps_iff, overlappingLines]
  split
  · simp [*]
  · have hmono : s / cs ≤ (s + len - 1) / cs := Nat.div_le_div_right (by omega)
    rw [List.mem_range'_1]
    omega

theorem nodup_overlappingLines (cs s len : Nat) :
    (overlappingLines cs s len).Nodup := by
  unfold overlappingLines
  split
  · exact List.nodup_nil
  · exact List.nodup_range' _ _

example : overlappingLines 64 100 60 = [1, 2] := by decide

theorem overlappingLines_of_pos {cs s len : Nat} (hlen : 0 < len) :
    overlappingLines cs s len = List.range' (s / cs) ((s + len - 1) / cs + 1 - s / cs) :=
  if_neg (Nat.pos_iff_ne_zero.1 hlen)

/-- The first line under a nonempty range is the line of its first byte. -/
theorem head?_overlappingLines {cs s len : Nat} (hlen : 0 < len) :
    (overlappingLines cs s len).head? = some (s / cs) := by
  have hmono : s / cs ≤ (s + len - 1) / cs := Nat.div_le_div_right (by omega)
  rw [overlappingLines_of_pos hlen, List.head?_range', if_neg (by omega)]

/-- The last line under a nonempty range is the line of its last byte. -/
theorem getLast?_overlappingLines {cs s len : Nat} (hlen : 0 < len) :
    (overlappingLines cs s len).getLast? = some ((s + len - 1) / cs) := by
  have hmono : s / cs ≤ (s + len - 1) / cs := Nat.div_le_div_right (by omega)
  rw [overlappingLines_of_pos hlen, List.getLast?_range', if_neg (by omega)]
  generalize s / cs = p at hmono ⊢
  congr 1
  omega

/-- A sub-range overlaps no more lines than the range around it. -/
theorem length_overlappingLines_le {cs s len s' len' : Nat} (hs : s ≤ s')
    (hlen : s' + len' ≤ s + len) :
    (overlappingLines cs s' len').length ≤ (overlappingLines cs s len).length := by
  unfold overlappingLines
  split_ifs with h h'
  · exact Nat.le_refl 0
  · exact Nat.zero_le _
  · omega
  · have := Nat.div_le_div_right (c := cs) hs
    have := Nat.div_le_div_right (c := cs) (show s' + len' - 1 ≤ s + len - 1 by omega)
    rw [List.length_range', List.length_range']
    omega

/-! ## A strided cursor -/

/-- An address at offset `r < c` of line `q` lies in line `q`. -/
theorem map_div_map_mul_add {c r : Nat} (hc : 0 < c) (hr : r < c) (l : List Nat) :
    (l.map (· * c + r)).map (· / c) = l := by
  induction l with
  | nil => rfl
  | cons q l ih =>
      rw [List.map_cons, List.map_cons, ih, Nat.mul_comm, Nat.mul_add_div hc,
        Nat.div_eq_of_lt hr, Nat.add_zero]

/-- A cursor started at offset `r` of line `q` stays at offset `r` of each
line it visits. -/
theorem range'_mul_add (c q r n : Nat) :
    List.range' (q * c + r) n c = (List.range' q n).map (· * c + r) := by
  induction n generalizing q with
  | zero => rfl
  | succ n ih =>
      rw [List.range'_succ, List.range'_succ, List.map_cons, ← ih, Nat.add_one_mul]
      congr 2
      omega

/-! ## Two abutting ranges -/

section Abutting

variable {c s a b : Nat}

/-- The byte before a boundary that is not at a line start lies in the
boundary's own line. -/
theorem sub_one_div_of_mod_ne_zero {x : Nat} (hx : 0 < x) (h : x % c ≠ 0) :
    (x - 1) / c = x / c := by
  have hnext := Nat.succ_div (x - 1) c
  rw [Nat.sub_add_cancel hx, if_neg fun hd => h (Nat.mod_eq_zero_of_dvd hd)] at hnext
  exact hnext.symm

/-- The byte before a line start lies in the line before. -/
theorem sub_one_div_add_one_of_mod_eq_zero {x : Nat} (hx : 0 < x) (h : x % c = 0) :
    (x - 1) / c + 1 = x / c := by
  have hnext := Nat.succ_div (x - 1) c
  rw [Nat.sub_add_cancel hx, if_pos (Nat.dvd_of_mod_eq_zero h)] at hnext
  exact hnext.symm

/-- **Split at a line start.** The lines of `[s, s + a)` followed by those of
`[s + a, s + a + b)` are the lines of `[s, s + a + b)`. -/
theorem overlappingLines_append_of_mod_eq_zero (ha : 0 < a) (hb : 0 < b)
    (hal : (s + a) % c = 0) :
    overlappingLines c s a ++ overlappingLines c (s + a) b = overlappingLines c s (a + b) := by
  have hfirst : s / c ≤ (s + a - 1) / c := Nat.div_le_div_right (by omega)
  have hsecond : (s + a) / c ≤ (s + a + b - 1) / c := Nat.div_le_div_right (by omega)
  have hnext := sub_one_div_add_one_of_mod_eq_zero (by omega : 0 < s + a) hal
  rw [overlappingLines_of_pos ha, overlappingLines_of_pos hb,
    overlappingLines_of_pos (Nat.add_pos_left ha b), show s + (a + b) - 1 = s + a + b - 1 by omega,
    show (s + a) / c = s / c + ((s + a - 1) / c + 1 - s / c) by omega, List.range'_append_1]
  congr 1
  omega

/-- **Split inside a line.** The line of the boundary `s + a` holds bytes of
both ranges, so it is the last line of `[s, s + a)` and the first of
`[s + a, s + a + b)`; listed once, the two give the lines of `[s, s + a + b)`. -/
theorem overlappingLines_append_tail (ha : 0 < a) (hb : 0 < b) (hal : (s + a) % c ≠ 0) :
    overlappingLines c s a ++ (overlappingLines c (s + a) b).tail =
      overlappingLines c s (a + b) := by
  have hfirst : s / c ≤ (s + a - 1) / c := Nat.div_le_div_right (by omega)
  have hsecond : (s + a) / c ≤ (s + a + b - 1) / c := Nat.div_le_div_right (by omega)
  have hsame := sub_one_div_of_mod_ne_zero (by omega : 0 < s + a) hal
  rw [overlappingLines_of_pos ha, overlappingLines_of_pos hb,
    overlappingLines_of_pos (Nat.add_pos_left ha b), show s + (a + b) - 1 = s + a + b - 1 by omega,
    List.tail_range', show (s + a) / c + 1 = s / c + ((s + a - 1) / c + 1 - s / c) by omega,
    List.range'_append_1]
  congr 1
  omega

end Abutting

/-! ## The last byte of a line -/

/-- The last byte of the `c`-byte line that holds byte `a`. -/
def lineEnd (c a : Nat) : Nat := a / c * c + (c - 1)

section LineEnd

variable {c : Nat}

theorem le_lineEnd (hc : 0 < c) (a : Nat) : a ≤ lineEnd c a := by
  have := Nat.lt_div_mul_add (a := a) hc
  unfold lineEnd
  omega

theorem lineEnd_le (a : Nat) : lineEnd c a ≤ a + (c - 1) := by
  have := Nat.div_mul_le_self a c
  unfold lineEnd
  omega

theorem lineEnd_mod (hc : 0 < c) (a : Nat) : lineEnd c a % c = c - 1 := by
  rw [lineEnd, Nat.mul_comm, Nat.mul_add_mod, Nat.mod_eq_of_lt (by omega)]

/-- From the line of `x` to the end of the line of `a` there are
`a / c - x / c` line steps. -/
theorem lineEnd_sub_div (hc : 0 < c) {a x : Nat} (hx : x / c ≤ a / c) :
    (lineEnd c a - x) / c = a / c - x / c := by
  unfold lineEnd
  generalize a / c = q at hx ⊢
  obtain ⟨d, rfl⟩ : ∃ d, q = x / c + d := ⟨q - x / c, by omega⟩
  have hdm := Nat.div_add_mod x c
  have hr := Nat.mod_lt x hc
  have hsplit : (x / c + d) * c + (c - 1) - x = (c - 1 - x % c) + c * d := by
    rw [Nat.add_mul, Nat.mul_comm (x / c), Nat.mul_comm d]
    omega
  rw [hsplit, Nat.add_mul_div_left _ _ hc, Nat.div_eq_of_lt (by omega)]
  omega

end LineEnd

/-! ## The lines the loop visits -/

/-- The lines `clflush_data` flushes, from `s`, the first byte, to `e`, the
last byte as the code computes it (modulo `2⁶⁴`), for lines of `c` bytes:
from the line of `s` through the line of `e` when `e`'s line is not below
`s`'s; otherwise the line of `s`, and then — only when the cursor wraps past
`2⁶⁴`, from the top line — every line from `0` through that of `e`. -/
def flushedLines (c s e : Nat) : List Nat :=
  if s / c ≤ e / c then List.range' (s / c) (e / c + 1 - s / c)
  else if 2 ^ 64 ≤ s + c then s / c :: List.range' 0 (e / c + 1)
  else [s / c]

/-- On a nonempty range whose last byte is `s + len - 1`, the flushed lines
are the overlapping lines. -/
theorem flushedLines_eq_overlappingLines (c s : Nat) {len : Nat} (hlen : 0 < len) :
    flushedLines c s (s + len - 1) = overlappingLines c s len := by
  rw [flushedLines, if_pos (Nat.div_le_div_right (by omega)), overlappingLines,
    if_neg (by omega)]

example : flushedLines 64 (2 ^ 64 - 56) 43 = [2 ^ 58 - 1, 0] := by decide

/-! ## The low mask -/

/-- Or-ing the mask of the low `k` bits moves `x` to the last byte of its
`2 ^ k`-byte line. -/
theorem lor_two_pow_sub_one (x k : Nat) : x ||| (2 ^ k - 1) = lineEnd (2 ^ k) x := by
  apply Nat.eq_of_testBit_eq
  intro i
  rw [lineEnd, Nat.testBit_or, Nat.testBit_two_pow_sub_one, Nat.mul_comm,
    Nat.testBit_mul_pow_two_add _ (Nat.sub_lt (Nat.two_pow_pos k) Nat.one_pos),
    Nat.testBit_two_pow_sub_one]
  by_cases hik : i < k
  · simp [hik]
  · rw [← Nat.shiftRight_eq_div_pow, Nat.testBit_shiftRight,
      Nat.add_sub_cancel' (by omega)]
    simp [hik]

/-- The last byte `L` of a line of `2 ^ k` bytes, below the top line of the
`2⁶⁴`-byte address space, leaves room for a whole further line above it. -/
theorem line_end_add_lt {k L : Nat} (hk : k ≤ 64) (hL : L < 2 ^ 64)
    (hend : L % 2 ^ k = 2 ^ k - 1) (htop : L ≠ 2 ^ 64 - 1) :
    L + 2 ^ k < 2 ^ 64 := by
  have hm : 2 ^ 64 = 2 ^ k * 2 ^ (64 - k) := by
    rw [← Nat.pow_add, Nat.add_sub_cancel' hk]
  -- the line after `L`'s starts at `L + 1`, strictly inside the address space
  have hnext : 2 ^ k * (L / 2 ^ k + 1) = L + 1 := by
    have := Nat.div_add_mod L (2 ^ k)
    have := Nat.two_pow_pos k
    rw [Nat.mul_succ]
    omega
  have hlt : L / 2 ^ k + 1 < 2 ^ (64 - k) :=
    Nat.lt_of_mul_lt_mul_left (a := 2 ^ k) (by rw [hnext, ← hm]; omega)
  have hle : 2 ^ k * (L / 2 ^ k + 1 + 1) ≤ 2 ^ 64 := hm ▸ Nat.mul_le_mul_left _ hlt
  rw [Nat.mul_succ, hnext] at hle
  omega

/-- The byte just below the top `2 ^ k`-byte line of the address space ends
line `2 ^ (64 - k) - 2`, the last line below the top one. -/
theorem lineEnd_below_top_line {k : Nat} (hk : k < 64) :
    (2 ^ 64 - 2 ^ k - 1) / 2 ^ k = 2 ^ (64 - k) - 2 ∧
      lineEnd (2 ^ k) (2 ^ 64 - 2 ^ k - 1) = 2 ^ 64 - 2 ^ k - 1 := by
  have hm : 2 ^ 64 = 2 ^ k * 2 ^ (64 - k) := by
    rw [← Nat.pow_add, Nat.add_sub_cancel' hk.le]
  have h2 : 2 ^ 1 ≤ 2 ^ (64 - k) := Nat.pow_le_pow_right (by decide) (by omega)
  obtain ⟨d, hd⟩ : ∃ d, 2 ^ (64 - k) = d + 2 := ⟨_, (Nat.sub_add_cancel h2).symm⟩
  have hc := Nat.two_pow_pos k
  rw [hd, Nat.mul_add, Nat.mul_comm] at hm
  have hdiv : (2 ^ 64 - 2 ^ k - 1) / 2 ^ k = d := by
    apply Nat.div_eq_of_lt_le
    · omega
    · rw [Nat.add_mul, Nat.one_mul]
      omega
  rw [hd, Nat.add_sub_cancel, lineEnd, hdiv]
  exact ⟨rfl, by omega⟩

end RocrRuntime.Xdna.CacheLine
