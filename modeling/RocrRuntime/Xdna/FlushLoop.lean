import RocrRuntime.Xdna.CacheLine

/-!
# The flush loop of `clflush_data`

The last four lines of `clflush_data` are a do-while loop over a byte cursor:

    do {
      _mm_clflush(cur);
      cur += cacheline_size;
    } while (cur <= (const char *)lastline);

`flushLoop cs lastline fuel cur` runs it from cursor `cur` and returns the
addresses handed to `_mm_clflush`, in order. The body runs at least once, the
test compares unsigned 64-bit addresses, and `cur += cacheline_size` wraps at
`2⁶⁴`. The loop need not exit — when `lastline` is `UINTPTR_MAX` every cursor
passes the test — so the model counts iterations down from `fuel` and returns
`none` when the count runs out first.

The model takes every `_mm_clflush` to return and records only the address it
is handed. On the machine `CLFLUSH` is checked like a one-byte load, so it
faults on an address the process may not read, such as an unmapped page or a
kernel page. Where the loop runs past the buffer — without end when
`lastline` is `UINTPTR_MAX` (`flushLoop_allOnes`), or round the whole address
space after the cursor wraps — the results here describe the loop's
arithmetic; a real run stops at the first such fault.

## Main results

* `flushLoop_run` — while `lastline + cs` does not wrap, a run started at or
  below `lastline` flushes `cur, cur + cs, …` through the last such address at
  or below `lastline`, one unit of fuel per flush.
* `flushLoop_allOnes` — with `lastline = UINTPTR_MAX` the loop never exits.
* `flushLoop_terminates_iff` — for a power-of-two `cs` and a `lastline` whose
  low bits are set, the loop exits iff `lastline ≠ UINTPTR_MAX`.
-/

namespace RocrRuntime.Xdna.FlushLoop

open RocrRuntime.Xdna.CacheLine

/-- The do-while loop of `clflush_data` from cursor `cur`, allowed `fuel`
iterations: the flushed addresses in order, or `none` if the loop is still
running when the fuel is spent. -/
def flushLoop (cs lastline : Uintptr) : Nat → Uintptr → Option (List Uintptr)
  | 0, _ => none
  | fuel + 1, cur =>
      if cur + cs ≤ lastline then
        (flushLoop cs lastline fuel (cur + cs)).map (cur :: ·)
      else some [cur]

section Step

variable {cs lastline cur : Uintptr} {fuel : Nat}

@[simp] theorem flushLoop_zero : flushLoop cs lastline 0 cur = none := rfl

/-- The loop goes round again when the advanced cursor passes the test. -/
theorem flushLoop_succ_of_le (h : cur + cs ≤ lastline) :
    flushLoop cs lastline (fuel + 1) cur =
      (flushLoop cs lastline fuel (cur + cs)).map (cur :: ·) := by
  rw [flushLoop, if_pos h]

/-- The loop exits after this flush when the advanced cursor fails the test. -/
theorem flushLoop_succ_of_lt (h : lastline < cur + cs) :
    flushLoop cs lastline (fuel + 1) cur = some [cur] := by
  rw [flushLoop, if_neg (BitVec.not_le.2 h)]

end Step

/-! ## Runs that do not wrap -/

/-- **Run lemma.** Started at or below `lastline`, with no wrap possible
before the exit, the loop flushes `cur, cur + cs, cur + 2·cs, …` through the
last of them at or below `lastline`: `(lastline - cur) / cs + 1` flushes,
each costing one unit of fuel. -/
theorem flushLoop_run {cs lastline : Uintptr} (hcs : 0 < cs.toNat)
    (hwrap : lastline.toNat + cs.toNat < 2 ^ 64) {fuel : Nat} {cur : Uintptr}
    (hcur : cur.toNat ≤ lastline.toNat)
    (hfuel : (lastline.toNat - cur.toNat) / cs.toNat < fuel) :
    (flushLoop cs lastline fuel cur).map (List.map BitVec.toNat) =
      some (List.range' cur.toNat
        ((lastline.toNat - cur.toNat) / cs.toNat + 1) cs.toNat) := by
  induction fuel generalizing cur with
  | zero => exact absurd hfuel (Nat.not_lt_zero _)
  | succ fuel ih =>
      have hnext : (cur + cs).toNat = cur.toNat + cs.toNat := by
        rw [BitVec.toNat_add, Nat.mod_eq_of_lt (by omega)]
      by_cases hc : cur.toNat + cs.toNat ≤ lastline.toNat
      · -- another round: the count of remaining flushes drops by one
        have hcount : (lastline.toNat - cur.toNat) / cs.toNat =
            (lastline.toNat - (cur.toNat + cs.toNat)) / cs.toNat + 1 := by
          rw [Nat.div_eq_sub_div hcs (by omega), Nat.sub_add_eq]
        have hrest := @ih (cur + cs) (by omega) (by rw [hnext]; omega)
        rw [hnext] at hrest
        have hcons : List.map BitVec.toNat ∘ (cur :: ·) =
            (cur.toNat :: ·) ∘ List.map BitVec.toNat := rfl
        rw [flushLoop_succ_of_le (BitVec.le_def.2 (hnext ▸ hc)), Option.map_map,
          hcons, ← Option.map_map, hrest, hcount, List.range'_succ]
        rfl
      · -- the last flush: `lastline` lies within one line size of `cur`
        have hlast : (lastline.toNat - cur.toNat) / cs.toNat = 0 :=
          Nat.div_eq_of_lt (by omega)
        rw [flushLoop_succ_of_lt (BitVec.lt_def.2 (by omega)), hlast]
        rfl

/-- One flush whose advanced cursor passes the test, then a run from there.
With `flushLoop_run` this covers a cursor above `lastline` whose advance wraps
past `2⁶⁴` back to at or below `lastline`. -/
theorem flushLoop_succ_run {cs lastline : Uintptr} (hcs : 0 < cs.toNat)
    (hwrap : lastline.toNat + cs.toNat < 2 ^ 64) {fuel : Nat} {cur : Uintptr}
    (hnext : (cur + cs).toNat ≤ lastline.toNat)
    (hfuel : (lastline.toNat - (cur + cs).toNat) / cs.toNat < fuel) :
    (flushLoop cs lastline (fuel + 1) cur).map (List.map BitVec.toNat) =
      some (cur.toNat :: List.range' (cur + cs).toNat
        ((lastline.toNat - (cur + cs).toNat) / cs.toNat + 1) cs.toNat) := by
  obtain ⟨rest, hrest, hmap⟩ := Option.map_eq_some'.1 (flushLoop_run hcs hwrap hnext hfuel)
  rw [flushLoop_succ_of_le (BitVec.le_def.2 hnext), hrest]
  simp only [Option.map_some', List.map_cons, hmap]

/-! ## Termination -/

/-- With `lastline = UINTPTR_MAX` every cursor passes the test: the loop never
exits, whatever the fuel. -/
theorem flushLoop_allOnes (cs : Uintptr) (fuel : Nat) (cur : Uintptr) :
    flushLoop cs (BitVec.allOnes 64) fuel cur = none := by
  induction fuel generalizing cur with
  | zero => rfl
  | succ fuel ih =>
      have hle : cur + cs ≤ BitVec.allOnes 64 := by
        rw [BitVec.le_def, BitVec.toNat_allOnes]
        have := (cur + cs).isLt
        omega
      rw [flushLoop_succ_of_le hle, ih]
      rfl

/-- **Termination.** For a line size of `2 ^ k` bytes and a `lastline` whose
low `k` bits are set, the loop exits, from any cursor, iff `lastline` is not
`UINTPTR_MAX`. A cursor above `lastline` that wraps past `2⁶⁴` lands below it
and finishes as a run from there. -/
theorem flushLoop_terminates_iff {cs lastline : Uintptr} {k : Nat}
    (hcs : cs.toNat = 2 ^ k) (hend : lastline.toNat % 2 ^ k = 2 ^ k - 1)
    (cur : Uintptr) :
    (∃ fuel trace, flushLoop cs lastline fuel cur = some trace) ↔
      lastline ≠ BitVec.allOnes 64 := by
  constructor
  · rintro ⟨fuel, trace, h⟩ rfl
    rw [flushLoop_allOnes] at h
    cases h
  · intro htop
    have hk : k ≤ 64 :=
      ((Nat.pow_lt_pow_iff_right Nat.one_lt_two).1 (hcs ▸ cs.isLt)).le
    have hne : lastline.toNat ≠ 2 ^ 64 - 1 := fun h =>
      htop (BitVec.eq_of_toNat_eq (by rw [h, BitVec.toNat_allOnes]))
    have hwrap : lastline.toNat + cs.toNat < 2 ^ 64 :=
      hcs ▸ line_end_add_lt hk lastline.isLt hend hne
    by_cases hc : cur + cs ≤ lastline
    · obtain ⟨rest, hrest, -⟩ := Option.map_eq_some'.1
        (flushLoop_run (hcs ▸ Nat.two_pow_pos k) hwrap (BitVec.le_def.1 hc)
          (Nat.lt_succ_self _))
      exact ⟨_ + 1 + 1, cur :: rest, by rw [flushLoop_succ_of_le hc, hrest]; rfl⟩
    · exact ⟨1, [cur], flushLoop_succ_of_lt (BitVec.not_le.1 hc)⟩

end RocrRuntime.Xdna.FlushLoop
