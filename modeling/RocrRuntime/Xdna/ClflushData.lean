import RocrRuntime.Xdna.FlushLoop
import Mathlib.Tactic.Ring

/-!
# `clflush_data`

`clflush_data(base, offset, len)` is the XDNA driver's way to sync a buffer
object without calling into the kernel driver (the comment above it says it
comes from the XRT KMQ shim). It keeps the L1 data-cache line size in a
function-local `static long cacheline_size`, asks `sysconf` for it while that
is still `0`, returns at once if `sysconf` reports no positive size, and
otherwise runs the do-while loop of `FlushLoop` from `cur = base + offset` up
to

    lastline = (uintptr_t)(cur + len - 1) | (cacheline_size - 1),

the last byte of the line that holds `cur + len - 1`.

`clflushData` takes the value of `cacheline_size` on entry and the value
`sysconf` would report, and returns the value left in `cacheline_size` with
the flushed addresses. Its specification is `CacheLine.overlappingLines`:
for a power-of-two line size and a nonempty range that stays one line clear
of the top of the address space, the loop ends and flushes each line under
`[s, s + len)` exactly once, in increasing order. Two inputs fall outside
that: the empty range, where the unconditional first iteration still flushes
the line of `s` (and, at the start of the top line, wraps around to flush
every line); and a last byte in the top line of the address space —
`s = 0, len = 0` among them — where `lastline` is `UINTPTR_MAX` and the loop
never ends. Like `FlushLoop`, this module takes every `_mm_clflush` to return;
a real run that leaves the process's readable memory faults there instead.

## Main results

* `clflushData_flushes_overlapping_lines` — the flushed lines are exactly the
  overlapping lines, each once, in increasing order.
* `clflushData_flushes_within_range` — no flushed address lies outside the
  lines of a nonempty range; an empty range at `s > 0` flushes exactly `s`.
* `clflushData_empty_range_wraps` — an empty range at the start of the top
  line wraps the cursor to `0` and flushes every line of the address space.
* `clflushData_terminates_iff` — the call ends iff `cur + len - 1` (mod
  `2⁶⁴`) lies below the top line of the address space.
* `clflushData_flushed_addresses` — when it ends, the flushed addresses in
  closed form (`CacheLine.flushedLines`), for every start and length.
-/

namespace RocrRuntime.Xdna.ClflushData

open RocrRuntime.Xdna.CacheLine RocrRuntime.Xdna.FlushLoop

/-! ## The model -/

/-- C's conversion of a `long` to a 64-bit unsigned word (a `uintptr_t`, or an
offset added to a pointer): the value modulo `2⁶⁴`. -/
def longToUintptr (v : Int) : Uintptr := BitVec.ofInt 64 v

/-- The line size a call works with: the cached `cacheline_size` when it is
set, otherwise what `sysconf(_SC_LEVEL1_DCACHE_LINESIZE)` reports as `sz`;
`none` when that is not positive and the call returns before flushing. -/
def cachelineSizeInit (cachelineSize sz : Int) : Option Int :=
  if cachelineSize = 0 then (if sz ≤ 0 then none else some sz) else some cachelineSize

theorem cachelineSizeInit_of_ne_zero {cachelineSize : Int} (hc : cachelineSize ≠ 0)
    (sz : Int) : cachelineSizeInit cachelineSize sz = some cachelineSize :=
  if_neg hc

theorem cachelineSizeInit_of_pos {sz : Int} (hsz : 0 < sz) :
    cachelineSizeInit 0 sz = some sz := by
  rw [cachelineSizeInit, if_pos rfl, if_neg (Int.not_le.2 hsz)]

/-- `lastline`: the last byte of the line that holds `cur + len - 1`. -/
def lastline (cachelineSize : Int) (cur len : Uintptr) : Uintptr :=
  (cur + len - 1) ||| longToUintptr (cachelineSize - 1)

/-- What a call leaves behind. -/
structure ClflushOutcome where
  /-- The function-local `static long cacheline_size` after the call. -/
  cachelineSize : Int
  /-- The addresses passed to `_mm_clflush`, in order; `none` when the loop
  is still running after the fuel. -/
  flushed : Option (List Uintptr)

/-- `clflush_data(base, offset, len)`, entered with `cachelineSize` in the
static and with `sz` the size `sysconf` reports if the call asks for it. -/
def clflushData (cachelineSize sz : Int) (base offset len : Uintptr)
    (fuel : Nat) : ClflushOutcome :=
  match cachelineSizeInit cachelineSize sz with
  | none => ⟨cachelineSize, some []⟩
  | some cs =>
      let cur := base + offset
      ⟨cs, flushLoop (longToUintptr cs) (lastline cs cur len) fuel cur⟩

/-- A call stores `sz` exactly when the static was unset and `sysconf`
reported a positive size; otherwise the static keeps its value. -/
theorem clflushData_cachelineSize (cachelineSize sz : Int) (base offset len : Uintptr)
    (fuel : Nat) :
    (clflushData cachelineSize sz base offset len fuel).cachelineSize =
      if cachelineSize = 0 ∧ 0 < sz then sz else cachelineSize := by
  unfold clflushData cachelineSizeInit
  by_cases h0 : cachelineSize = 0
  · by_cases hsz : 0 < sz
    · simp [h0, hsz, not_le.2 hsz]
    · simp [h0, hsz, not_lt.1 hsz]
  · simp [h0]

/-- Once the static is set, a call never looks at what `sysconf` reports. -/
theorem clflushData_sz_irrelevant {cachelineSize : Int} (hc : cachelineSize ≠ 0)
    (sz sz' : Int) (base offset len : Uintptr) (fuel : Nat) :
    clflushData cachelineSize sz base offset len fuel =
      clflushData cachelineSize sz' base offset len fuel := by
  simp only [clflushData, cachelineSizeInit, if_neg hc]

/-- Before the static is set, a failed `sysconf` query ends the call at once. -/
theorem clflushData_of_sysconf_fails {sz : Int} (hsz : sz ≤ 0) (base offset len : Uintptr)
    (fuel : Nat) : clflushData 0 sz base offset len fuel = ⟨0, some []⟩ := by
  simp only [clflushData, cachelineSizeInit, if_pos hsz, if_true]

theorem clflushData_of_init {cachelineSize sz cs : Int}
    (h : cachelineSizeInit cachelineSize sz = some cs) (base offset len : Uintptr)
    (fuel : Nat) :
    clflushData cachelineSize sz base offset len fuel =
      ⟨cs, flushLoop (longToUintptr cs) (lastline cs (base + offset) len) fuel
        (base + offset)⟩ := by
  rw [clflushData, h]

/-! ## Words of a power-of-two line size -/

section Words

variable {k : Nat}

theorem longToUintptr_two_pow (hk : k < 64) :
    (longToUintptr (2 ^ k)).toNat = 2 ^ k := by
  have h : ((2 : Int) ^ k) = ((2 ^ k : Nat) : Int) := by push_cast; rfl
  rw [longToUintptr, h, BitVec.ofInt_natCast, BitVec.toNat_ofNat,
    Nat.mod_eq_of_lt (Nat.pow_lt_pow_right Nat.one_lt_two hk)]

theorem longToUintptr_two_pow_sub_one (hk : k ≤ 64) :
    (longToUintptr (2 ^ k - 1)).toNat = 2 ^ k - 1 := by
  have h : ((2 : Int) ^ k - 1) = ((2 ^ k - 1 : Nat) : Int) := by
    push_cast [Nat.one_le_two_pow]; rfl
  rw [longToUintptr, h, BitVec.ofInt_natCast, BitVec.toNat_ofNat, Nat.mod_eq_of_lt]
  have := Nat.pow_le_pow_right (n := 2) (by decide) hk
  have := Nat.one_le_two_pow (n := k)
  omega

/-- A mask of `64` or more low bits is all ones once cut to 64 bits. -/
theorem longToUintptr_two_pow_sub_one_of_le (hk : 64 ≤ k) :
    longToUintptr (2 ^ k - 1) = BitVec.allOnes 64 := by
  apply BitVec.eq_of_toNat_eq
  rw [longToUintptr, BitVec.toNat_ofInt, BitVec.toNat_allOnes]
  obtain ⟨m, rfl⟩ : ∃ m, k = 64 + m := ⟨k - 64, by omega⟩
  rw [show (2 : Int) ^ (64 + m) - 1 =
      (2 ^ 64 - 1) + (2 ^ m - 1) * ((2 ^ 64 : Nat) : Int) by push_cast; ring,
    Int.add_mul_emod_self]
  rfl

/-- `lastline` is the last byte of the `2 ^ k`-byte line of `cur + len - 1`. -/
theorem lastline_toNat (hk : k ≤ 64) (cur len : Uintptr) :
    (lastline (2 ^ k) cur len).toNat = lineEnd (2 ^ k) (cur + len - 1).toNat := by
  rw [lastline, BitVec.toNat_or, longToUintptr_two_pow_sub_one hk,
    lor_two_pow_sub_one]

end Words

/-! ## One call -/

section Call

variable {k : Nat} {cur len : Uintptr}

/-- `cur + len - 1` is the plain difference when it neither wraps below `0`
nor past `2⁶⁴`. -/
theorem toNat_last_byte (hpos : 0 < cur.toNat + len.toNat)
    (hfit : cur.toNat + len.toNat < 2 ^ 64) :
    (cur + len - 1).toNat = cur.toNat + len.toNat - 1 := by
  have hone : (1 : Uintptr).toNat = 1 := rfl
  rw [BitVec.toNat_sub, BitVec.toNat_add, Nat.mod_eq_of_lt hfit, hone]
  omega

/-- An empty range at `cur > 0`, one line clear of `2⁶⁴`: `lastline` falls
below `cur + cs`, so the unconditional first iteration is the only one. -/
theorem flushLoop_empty (hlen : len.toNat = 0) (hcur : 0 < cur.toNat)
    (hfit : cur.toNat + 2 ^ k < 2 ^ 64) {fuel : Nat} (hfuel : 0 < fuel) :
    flushLoop (longToUintptr (2 ^ k)) (lastline (2 ^ k) cur len) fuel cur =
      some [cur] := by
  have hk : k < 64 := (Nat.pow_lt_pow_iff_right Nat.one_lt_two).1 (by omega)
  obtain ⟨fuel, rfl⟩ : ∃ f, fuel = f + 1 := ⟨fuel - 1, by omega⟩
  apply flushLoop_succ_of_lt
  have hc := Nat.two_pow_pos k
  have hle := lineEnd_le (c := 2 ^ k) (cur.toNat - 1)
  rw [BitVec.lt_def, lastline_toNat hk.le, toNat_last_byte (by omega) (by omega),
    hlen, Nat.add_zero, BitVec.toNat_add, longToUintptr_two_pow hk,
    Nat.mod_eq_of_lt hfit]
  omega

/-- **The loop on every input, in closed form.** For `2 ^ k`-byte lines and a
last byte `e = cur + len - 1` (modulo `2⁶⁴`) below the top line, the loop
flushes one address in each line of `flushedLines`, in order, each at the
offset of `cur` within its line; one unit of fuel per flush is enough. -/
theorem flushLoop_flushedLines (hend : (cur + len - 1).toNat < 2 ^ 64 - 2 ^ k) {fuel : Nat}
    (hfuel : (flushedLines (2 ^ k) cur.toNat (cur + len - 1).toNat).length ≤ fuel) :
    ∃ trace, flushLoop (longToUintptr (2 ^ k)) (lastline (2 ^ k) cur len) fuel cur =
        some trace ∧
      trace.map BitVec.toNat = (flushedLines (2 ^ k) cur.toNat (cur + len - 1).toNat).map
        (· * 2 ^ k + cur.toNat % 2 ^ k) := by
  have hk : k < 64 := (Nat.pow_lt_pow_iff_right Nat.one_lt_two).1 (by omega)
  have hc := Nat.two_pow_pos k
  have hcs := longToUintptr_two_pow hk
  have hL := lastline_toNat hk.le cur len
  have hle := lineEnd_le (c := 2 ^ k) (cur + len - 1).toNat
  have hwrap : (lastline (2 ^ k) cur len).toNat + (longToUintptr (2 ^ k)).toNat < 2 ^ 64 := by
    rw [hcs, hL]
    exact line_end_add_lt hk.le (by omega) (lineEnd_mod hc _) (by omega)
  have hsplit := Nat.div_add_mod' cur.toNat (2 ^ k)
  unfold flushedLines at hfuel ⊢
  split_ifs at hfuel ⊢ with hline htop
  · -- `e`'s line is not below `cur`'s: a plain run up to `lastline`
    have hcur : cur.toNat ≤ (lastline (2 ^ k) cur len).toNat := by
      have := Nat.mul_le_mul_right (2 ^ k) hline
      have := Nat.lt_div_mul_add (a := cur.toNat) hc
      rw [hL, lineEnd]
      omega
    rw [List.length_range'] at hfuel
    obtain ⟨trace, htrace, hmap⟩ := Option.map_eq_some'.1 <|
      @flushLoop_run _ _ (hcs ▸ hc) hwrap fuel cur hcur
        (by rw [hcs, hL, lineEnd_sub_div hc hline]; omega)
    refine ⟨trace, htrace, ?_⟩
    rw [hmap, hcs, hL, lineEnd_sub_div hc hline, ← range'_mul_add, hsplit]
    congr 1
    omega
  · -- `cur` is in the top line: the advance wraps to `cur`'s offset in line `0`
    have hnext : (cur + longToUintptr (2 ^ k)).toNat = cur.toNat % 2 ^ k := by
      have hlow : (cur.toNat + 2 ^ k) % 2 ^ 64 < 2 ^ k := by
        rw [Nat.mod_eq_sub_mod htop, Nat.mod_eq_of_lt (by omega)]
        omega
      rw [BitVec.toNat_add, hcs, ← Nat.mod_eq_of_lt hlow,
        Nat.mod_mod_of_dvd _ (Nat.pow_dvd_pow 2 hk.le), Nat.add_mod_right]
    have hzero : cur.toNat % 2 ^ k / 2 ^ k = 0 := Nat.div_eq_of_lt (Nat.mod_lt _ hc)
    have hsteps := lineEnd_sub_div hc (a := (cur + len - 1).toNat) (x := cur.toNat % 2 ^ k)
      (by rw [hzero]; exact Nat.zero_le _)
    have hmod : cur.toNat % 2 ^ k ≤ (lastline (2 ^ k) cur len).toNat := by
      rw [hL, lineEnd]
      have := Nat.mod_lt cur.toNat hc
      omega
    rw [List.length_cons, List.length_range'] at hfuel
    obtain _ | fuel := fuel
    · exact absurd hfuel (Nat.not_succ_le_zero _)
    obtain ⟨trace, htrace, hmap⟩ := Option.map_eq_some'.1 <|
      @flushLoop_succ_run _ _ (hcs ▸ hc) hwrap fuel cur (hnext ▸ hmod)
        (by rw [hcs, hnext, hL, hsteps, hzero, Nat.sub_zero]; omega)
    refine ⟨trace, htrace, ?_⟩
    rw [hmap, hnext, hcs, hL, hsteps, hzero, List.map_cons, ← range'_mul_add, Nat.zero_mul,
      Nat.zero_add, hsplit, Nat.sub_zero]
  · -- `e`'s line is below `cur`'s and the advance does not wrap: one flush
    have hend : (lastline (2 ^ k) cur len).toNat < (cur + longToUintptr (2 ^ k)).toNat := by
      have hlines := Nat.mul_le_mul_right (2 ^ k) (Nat.lt_of_not_le hline)
      have := Nat.div_mul_le_self cur.toNat (2 ^ k)
      rw [Nat.add_one_mul] at hlines
      rw [BitVec.toNat_add, hcs, Nat.mod_eq_of_lt (by omega), hL, lineEnd]
      omega
    rw [List.length_singleton] at hfuel
    obtain _ | fuel := fuel
    · exact absurd hfuel (Nat.not_succ_le_zero _)
    refine ⟨[cur], flushLoop_succ_of_lt (BitVec.lt_def.2 hend), ?_⟩
    rw [List.map_singleton, List.map_singleton, hsplit]

/-- **The lines of a nonempty range.** For `2 ^ k`-byte lines and a nonempty
range `[cur, cur + len)` that stays one line clear of `2⁶⁴`, the loop flushes
one address in each line of `overlappingLines`, in order, and one unit of fuel
per line is enough. -/
theorem flushLoop_lines (hlen : 0 < len.toNat)
    (hfit : cur.toNat + len.toNat + 2 ^ k ≤ 2 ^ 64) {fuel : Nat}
    (hfuel : (overlappingLines (2 ^ k) cur.toNat len.toNat).length ≤ fuel) :
    ∃ trace, flushLoop (longToUintptr (2 ^ k)) (lastline (2 ^ k) cur len) fuel cur =
        some trace ∧
      trace.map (fun a => a.toNat / 2 ^ k) =
        overlappingLines (2 ^ k) cur.toNat len.toNat := by
  have hc := Nat.two_pow_pos k
  have hlast := @toNat_last_byte cur len (by omega) (by omega)
  -- on a range that does not wrap, the closed form is the specification
  have hspec : flushedLines (2 ^ k) cur.toNat (cur + len - 1).toNat =
      overlappingLines (2 ^ k) cur.toNat len.toNat := by
    rw [hlast, flushedLines_eq_overlappingLines _ _ hlen]
  obtain ⟨trace, htrace, hmap⟩ := flushLoop_flushedLines (by omega) (hspec ▸ hfuel)
  refine ⟨trace, htrace, ?_⟩
  rw [show (fun a : Uintptr => a.toNat / 2 ^ k) = (· / 2 ^ k) ∘ BitVec.toNat from rfl,
    ← List.map_map, hmap, hspec, map_div_map_mul_add hc (Nat.mod_lt _ hc)]

end Call

/-- **`clflush_data` flushes each line under a nonempty range once, in
order.** For a power-of-two line size `2 ^ k` (cached, or as `sysconf`
reports it) and `len ≥ 1` bytes from `s = base + offset` with
`s + len + 2 ^ k ≤ 2⁶⁴`, the call ends once it has the fuel of one iteration
per line; the lines of the flushed addresses are the lines from that of `s`
through that of `s + len - 1`, each once and in increasing order, and so are
exactly the lines that hold a byte of `[s, s + len)`. -/
theorem clflushData_flushes_overlapping_lines {cachelineSize sz : Int} {k : Nat}
    (hinit : cachelineSizeInit cachelineSize sz = some (2 ^ k))
    (base offset len : Uintptr) (hlen : 0 < len.toNat)
    (hfit : (base + offset).toNat + len.toNat + 2 ^ k ≤ 2 ^ 64) {fuel : Nat}
    (hfuel : (overlappingLines (2 ^ k) (base + offset).toNat len.toNat).length ≤ fuel) :
    ∃ trace, (clflushData cachelineSize sz base offset len fuel).flushed = some trace ∧
      trace.map (fun a => a.toNat / 2 ^ k) =
        overlappingLines (2 ^ k) (base + offset).toNat len.toNat ∧
      ∀ line, line ∈ trace.map (fun a => a.toNat / 2 ^ k) ↔
        LineOverlaps (2 ^ k) (base + offset).toNat len.toNat line := by
  obtain ⟨trace, htrace, hlines⟩ := flushLoop_lines hlen hfit hfuel
  refine ⟨trace, by rw [clflushData_of_init hinit]; exact htrace, hlines, fun line => ?_⟩
  rw [hlines, mem_overlappingLines]

/-- 60 bytes from address `100`, with `sysconf` reporting 64-byte lines on the
first call: lines `1` and `2`. -/
theorem clflushData_flushes_lines_one_and_two :
    cachelineSizeInit 0 64 = some (2 ^ 6) ∧
      ∃ trace, (clflushData 0 64 100 0 60 2).flushed = some trace ∧
        trace.map (fun a => a.toNat / 2 ^ 6) = [1, 2] := by
  obtain ⟨trace, htrace, hlines, -⟩ :=
    @clflushData_flushes_overlapping_lines 0 64 6 (by decide) 100 0 60 (by decide)
      (by decide) 2 (by decide)
  exact ⟨by decide, trace, htrace, hlines.trans (by decide)⟩

/-- **`clflush_data` flushes nothing outside a nonempty range.** For a
power-of-two line size `2 ^ k` and `s = base + offset`: with `len ≥ 1` and
`s + len + 2 ^ k ≤ 2⁶⁴` the call ends, given one iteration of fuel per line,
and every flushed address lies in a line holding a byte of `[s, s + len)`.
With `len = 0`, `s > 0` and `s + 2 ^ k < 2⁶⁴` the do-while's unconditional
first iteration still runs: the call flushes exactly `s`, whose line holds no
byte of the empty range, and stops. -/
theorem clflushData_flushes_within_range {cachelineSize sz : Int} {k : Nat}
    (hinit : cachelineSizeInit cachelineSize sz = some (2 ^ k))
    (base offset len : Uintptr) :
    (0 < len.toNat → (base + offset).toNat + len.toNat + 2 ^ k ≤ 2 ^ 64 →
      ∀ fuel, (overlappingLines (2 ^ k) (base + offset).toNat len.toNat).length ≤ fuel →
        ∃ trace, (clflushData cachelineSize sz base offset len fuel).flushed = some trace ∧
          ∀ a ∈ trace, LineOverlaps (2 ^ k) (base + offset).toNat len.toNat (a.toNat / 2 ^ k)) ∧
    (len.toNat = 0 → 0 < (base + offset).toNat → (base + offset).toNat + 2 ^ k < 2 ^ 64 →
      ∀ fuel, 0 < fuel →
        (clflushData cachelineSize sz base offset len fuel).flushed = some [base + offset]) := by
  refine ⟨fun hlen hfit fuel hfuel => ?_, fun hlen hcur hfit fuel hfuel => ?_⟩
  · obtain ⟨trace, htrace, hlines⟩ := flushLoop_lines hlen hfit hfuel
    refine ⟨trace, by rw [clflushData_of_init hinit]; exact htrace, fun a ha => ?_⟩
    rw [← mem_overlappingLines, ← hlines]
    exact List.mem_map_of_mem _ ha
  · rw [clflushData_of_init hinit]
    exact flushLoop_empty hlen hcur hfit hfuel

/-- One byte at address `100` and an empty range at address `64`, with 64-byte
lines from `sysconf`. -/
theorem clflushData_within_range_of_one_byte :
    cachelineSizeInit 0 64 = some (2 ^ 6) ∧
      (∃ trace, (clflushData 0 64 100 0 1 1).flushed = some trace ∧
        ∀ a ∈ trace, LineOverlaps (2 ^ 6) 100 1 (a.toNat / 2 ^ 6)) ∧
      (clflushData 0 64 64 0 0 1).flushed = some [64] := by
  have h := @clflushData_flushes_within_range 0 64 6 (by decide)
  exact ⟨by decide, (h 100 0 1).1 (by decide) (by decide) 1 (by decide),
    (h 64 0 0).2 (by decide) (by decide) (by decide) 1 (by decide)⟩

/-- At `s = 64`, `len = 0`, with 64-byte lines from `sysconf`, no run both
ends and keeps to the range: every run that ends flushes address `64`, and
line `1` holds no byte of the empty range. -/
theorem clflushData_empty_range_flushes_a_line :
    ¬ ∃ fuel trace, (clflushData 0 64 64 0 0 fuel).flushed = some trace ∧
        ∀ a ∈ trace, LineOverlaps 64 64 0 (a.toNat / 64) := by
  rintro ⟨fuel, trace, hrun, hin⟩
  rw [@clflushData_of_init 0 64 64 (by decide)] at hrun
  change flushLoop (longToUintptr 64) (lastline 64 64 0) fuel 64 = some trace at hrun
  obtain _ | fuel := fuel
  · cases hrun
  · rw [flushLoop_succ_of_lt (by decide)] at hrun
    cases hrun
    simp [lineOverlaps_iff] at hin

/-- **An empty range at the top line wraps around.** With `len = 0` and `s`
the start of the top `2 ^ k`-byte line of the address space, `lastline` ends
the line below `s`, and `cur += cacheline_size` wraps to `0`, which passes the
loop test: the call flushes `s` and then every line from `0` up to the line
below `s` — every line of the address space, once. -/
theorem clflushData_empty_range_wraps {cachelineSize sz : Int} {k : Nat}
    (hinit : cachelineSizeInit cachelineSize sz = some (2 ^ k)) (hk : k < 64)
    (base offset len : Uintptr) (hs : (base + offset).toNat = 2 ^ 64 - 2 ^ k)
    (hlen : len.toNat = 0) {fuel : Nat} (hfuel : 2 ^ (64 - k) ≤ fuel) :
    ∃ trace, (clflushData cachelineSize sz base offset len fuel).flushed = some trace ∧
      trace.map BitVec.toNat =
        (2 ^ 64 - 2 ^ k) :: List.range' 0 (2 ^ (64 - k) - 1) (2 ^ k) := by
  obtain ⟨hdiv, hend⟩ := lineEnd_below_top_line hk
  have hc := Nat.two_pow_pos k
  have hcs := longToUintptr_two_pow hk
  have htop : 2 ^ k < 2 ^ 64 := Nat.pow_lt_pow_right Nat.one_lt_two hk
  have h2 : 2 ^ 1 ≤ 2 ^ (64 - k) := Nat.pow_le_pow_right (by decide) (by omega)
  have hL : (lastline (2 ^ k) (base + offset) len).toNat = 2 ^ 64 - 2 ^ k - 1 := by
    rw [lastline_toNat hk.le, toNat_last_byte (by omega) (by omega), hs, hlen,
      Nat.add_zero, hend]
  -- the first advance wraps to address `0`, which passes the test
  have hwrapped : (base + offset + longToUintptr (2 ^ k)).toNat = 0 := by
    rw [BitVec.toNat_add, hs, hcs, Nat.sub_add_cancel htop.le, Nat.mod_self]
  obtain ⟨fuel, rfl⟩ : ∃ f, fuel = f + 1 := ⟨fuel - 1, by omega⟩
  rw [clflushData_of_init hinit, flushLoop_succ_of_le (BitVec.le_def.2 (by omega))]
  obtain ⟨rest, hrest, hmap⟩ := Option.map_eq_some'.1 <|
    @flushLoop_run (longToUintptr (2 ^ k)) (lastline (2 ^ k) (base + offset) len)
      (hcs ▸ hc) (by rw [hL, hcs]; omega) fuel (base + offset + longToUintptr (2 ^ k))
      (by omega) (by rw [hL, hcs, hwrapped, Nat.sub_zero, hdiv]; omega)
  refine ⟨(base + offset) :: rest, by rw [hrest]; rfl, ?_⟩
  rw [List.map_cons, hmap, hs, hL, hcs, hwrapped, Nat.sub_zero, hdiv]
  congr 2
  omega

/-- An empty range at `2⁶⁴ - 64`, with 64-byte lines from `sysconf`: all
`2 ^ 58` lines are flushed. -/
theorem clflushData_empty_top_line_flushes_everything :
    cachelineSizeInit 0 64 = some (2 ^ 6) ∧
      ∃ trace, (clflushData 0 64 (BitVec.ofNat 64 (2 ^ 64 - 64)) 0 0 (2 ^ 58)).flushed =
          some trace ∧
        trace.map BitVec.toNat = (2 ^ 64 - 2 ^ 6) :: List.range' 0 (2 ^ (64 - 6) - 1) (2 ^ 6) :=
  ⟨by decide, @clflushData_empty_range_wraps 0 64 6 (by decide) (by decide)
    (BitVec.ofNat 64 (2 ^ 64 - 64)) 0 0 (by decide) (by decide) (2 ^ 58) (by decide)⟩

/-! ## When the call ends -/

/-- **`clflush_data` ends iff the last byte is below the top line.** For a
power-of-two line size `2 ^ k`, the call ends, given enough fuel, iff
`cur + len - 1`, computed modulo `2⁶⁴`, lies below the top `2 ^ k`-byte line
of the address space; otherwise `lastline` is `UINTPTR_MAX`, every cursor
passes the loop test, and no fuel is enough. -/
theorem clflushData_terminates_iff {cachelineSize sz : Int} {k : Nat}
    (hinit : cachelineSizeInit cachelineSize sz = some (2 ^ k))
    (base offset len : Uintptr) :
    (∃ fuel trace,
        (clflushData cachelineSize sz base offset len fuel).flushed = some trace) ↔
      (base + offset + len - 1).toNat < 2 ^ 64 - 2 ^ k := by
  simp only [clflushData_of_init hinit]
  by_cases hk : k < 64
  · have hc := Nat.two_pow_pos k
    have hL := lastline_toNat hk.le (base + offset) len
    have hLlt := (lastline (2 ^ k) (base + offset) len).isLt
    have hend := lineEnd_mod hc (base + offset + len - 1).toNat
    have hge := le_lineEnd hc (base + offset + len - 1).toNat
    have hle := lineEnd_le (c := 2 ^ k) (base + offset + len - 1).toNat
    rw [flushLoop_terminates_iff (longToUintptr_two_pow hk) (hL ▸ hend), Ne,
      BitVec.toNat_eq, BitVec.toNat_allOnes, hL]
    rw [hL] at hLlt
    constructor
    · intro htop
      have := line_end_add_lt hk.le hLlt hend htop
      omega
    · intro hlow
      omega
  · -- the mask covers the whole word: `lastline` is `UINTPTR_MAX`
    have hmax : lastline (2 ^ k) (base + offset) len = BitVec.allOnes 64 := by
      rw [lastline, longToUintptr_two_pow_sub_one_of_le (by omega), BitVec.or_allOnes]
    have hnone : 2 ^ 64 - 2 ^ k = 0 :=
      Nat.sub_eq_zero_of_le (Nat.pow_le_pow_right (by decide) (by omega))
    rw [hnone, hmax]
    simp only [flushLoop_allOnes]
    simp

/-- With `base + offset = 0` and `len = 0`, `cur + len - 1` wraps to
`UINTPTR_MAX` and the call never ends. -/
theorem clflushData_never_ends_at_zero :
    cachelineSizeInit 0 64 = some (2 ^ 6) ∧
      ¬ ∃ fuel trace, (clflushData 0 64 0 0 0 fuel).flushed = some trace :=
  ⟨by decide, fun h => absurd ((@clflushData_terminates_iff 0 64 6 (by decide) 0 0 0).1 h)
    (by decide)⟩

/-! ## What the call flushes, on every input -/

/-- **`clflush_data` in closed form.** For a power-of-two line size `2 ^ k`,
`s = base + offset` and `e = s + len - 1` computed modulo `2⁶⁴` below the top
line (when, by `clflushData_terminates_iff`, the call ends), the call ends
given one iteration per flush, and flushes one address in each line of
`flushedLines`, in order, each at the offset of `s` within its line: the
lines from that of `s` through that of `e` when `e`'s line is not below
`s`'s; otherwise only the line of `s`, unless `s` is in the top line, where
`cur += cacheline_size` wraps to line `0` and the lines from `0` through that
of `e` follow. -/
theorem clflushData_flushed_addresses {cachelineSize sz : Int} {k : Nat}
    (hinit : cachelineSizeInit cachelineSize sz = some (2 ^ k))
    (base offset len : Uintptr)
    (hend : (base + offset + len - 1).toNat < 2 ^ 64 - 2 ^ k) {fuel : Nat}
    (hfuel : (flushedLines (2 ^ k) (base + offset).toNat
      (base + offset + len - 1).toNat).length ≤ fuel) :
    ∃ trace, (clflushData cachelineSize sz base offset len fuel).flushed = some trace ∧
      trace.map BitVec.toNat =
        (flushedLines (2 ^ k) (base + offset).toNat (base + offset + len - 1).toNat).map
          (· * 2 ^ k + (base + offset).toNat % 2 ^ k) := by
  rw [clflushData_of_init hinit]
  exact flushLoop_flushedLines hend hfuel

/-- 100 bytes from `2⁶⁴ - 56`, eight bytes into the top 64-byte line: the range
wraps past `2⁶⁴`, and the call flushes the top line and then, at the same
offset, line `0`. -/
theorem clflushData_wrapped_range_flushes_top_and_first_lines :
    cachelineSizeInit 0 64 = some (2 ^ 6) ∧
      ∃ trace, (clflushData 0 64 (BitVec.ofNat 64 (2 ^ 64 - 56)) 0 100 2).flushed =
          some trace ∧
        trace.map BitVec.toNat = [2 ^ 64 - 56, 8] := by
  obtain ⟨trace, htrace, hmap⟩ := @clflushData_flushed_addresses 0 64 6 (by decide)
    (BitVec.ofNat 64 (2 ^ 64 - 56)) 0 100 (by decide) 2 (by decide)
  exact ⟨by decide, trace, htrace, hmap.trans (by decide)⟩

end RocrRuntime.Xdna.ClflushData
