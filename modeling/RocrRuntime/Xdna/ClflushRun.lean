import RocrRuntime.Xdna.ClflushData

/-!
# The cached line size across calls

`cacheline_size` is a function-local `static`: it starts at `0` and is the only
state `clflush_data` keeps from one call to the next. A call asks `sysconf`
for the L1 data-cache line size only while the static is `0`; a positive
answer is stored for every later call, and a failed one is not, so the next
call asks again and, until some answer is positive, every call flushes
nothing.

`clflushRun` threads the static through a sequence of calls, each with the
answer `sysconf` would give it.

## Main results

* `clflushRun_cachelineSize` — from the initial `0` the static ends as the
  first positive answer of the run, or `0` when there was none.
* `clflushRun_of_sysconf_fails` — a run in which `sysconf` never reports a
  positive size flushes nothing and leaves the static at `0`.
* `clflushRun_sz_irrelevant` — once the static is set, what `sysconf` would
  answer changes nothing in the rest of the run.
* `clflushRun_flushes_overlapping_lines` — after the failed queries that open a
  run, every call flushes exactly the lines under its own range.
* `clflushRun_split_range` — syncing a range as two abutting pieces flushes the
  lines of the whole, the boundary line twice when it is split.
-/

namespace RocrRuntime.Xdna.ClflushRun

open RocrRuntime.Xdna.CacheLine RocrRuntime.Xdna.ClflushData

/-- One call of `clflush_data` in a run: what `sysconf` would report if the
call asks, and the arguments. -/
structure ClflushCall where
  sz : Int
  base : Uintptr
  offset : Uintptr
  len : Uintptr

/-- A run of calls entered with `cachelineSize` in the static, each allowed
`fuel` loop iterations: the static at the end, and what each call flushed. -/
def clflushRun (fuel : Nat) :
    Int → List ClflushCall → Int × List (Option (List Uintptr))
  | cachelineSize, [] => (cachelineSize, [])
  | cachelineSize, call :: calls =>
      let out := clflushData cachelineSize call.sz call.base call.offset call.len fuel
      let rest := clflushRun fuel out.cachelineSize calls
      (rest.1, out.flushed :: rest.2)

@[simp] theorem clflushRun_nil (fuel : Nat) (cachelineSize : Int) :
    clflushRun fuel cachelineSize [] = (cachelineSize, []) := rfl

theorem clflushRun_cons (fuel : Nat) (cachelineSize : Int) (call : ClflushCall)
    (calls : List ClflushCall) :
    clflushRun fuel cachelineSize (call :: calls) =
      let out := clflushData cachelineSize call.sz call.base call.offset call.len fuel
      ((clflushRun fuel out.cachelineSize calls).1,
        out.flushed :: (clflushRun fuel out.cachelineSize calls).2) := rfl

/-- Once set, the static keeps its value through any run. -/
theorem clflushRun_cachelineSize_of_ne_zero {cachelineSize : Int}
    (hc : cachelineSize ≠ 0) (fuel : Nat) (calls : List ClflushCall) :
    (clflushRun fuel cachelineSize calls).1 = cachelineSize := by
  induction calls with
  | nil => rfl
  | cons call calls ih =>
      simp only [clflushRun, clflushData_cachelineSize, hc, false_and, if_false, ih]

/-- **The static holds the first positive answer.** From the initial `0`,
after any sequence of calls `cacheline_size` is the first positive size
`sysconf` reported, or `0` if it never reported one. -/
theorem clflushRun_cachelineSize (fuel : Nat) (calls : List ClflushCall) :
    (clflushRun fuel 0 calls).1 = ((calls.map ClflushCall.sz).find? (0 < ·)).getD 0 := by
  induction calls with
  | nil => rfl
  | cons call calls ih =>
      by_cases hsz : 0 < call.sz
      · simp [clflushRun, clflushData_cachelineSize, hsz,
          clflushRun_cachelineSize_of_ne_zero (Int.ne_of_gt hsz)]
      · simp [clflushRun, clflushData_cachelineSize, hsz, ih]

/-- Calls made while the static is unset and `sysconf` fails flush nothing and
leave the static unset for the calls after them. -/
theorem clflushRun_append_of_fails (fuel : Nat) {pre : List ClflushCall}
    (hfail : ∀ call ∈ pre, call.sz ≤ 0) (rest : List ClflushCall) :
    clflushRun fuel 0 (pre ++ rest) =
      ((clflushRun fuel 0 rest).1, pre.map (fun _ => some []) ++ (clflushRun fuel 0 rest).2) := by
  induction pre with
  | nil => rfl
  | cons call pre ih =>
      simp only [List.cons_append, clflushRun_cons,
        clflushData_of_sysconf_fails (hfail call (List.mem_cons_self _ _)),
        ih fun c hc => hfail c (List.mem_cons_of_mem _ hc), List.map_cons, List.cons_append]

/-- **A failed query is retried, never cached.** When `sysconf` reports no
positive size on any call of a run from the initial `0`, every call returns
before flushing and the static is still `0` at the end. -/
theorem clflushRun_of_sysconf_fails (fuel : Nat) (calls : List ClflushCall)
    (hfail : ∀ call ∈ calls, call.sz ≤ 0) :
    clflushRun fuel 0 calls = (0, calls.map fun _ => some []) := by
  simpa using clflushRun_append_of_fails fuel hfail []

/-- Two calls while `sysconf` fails (reporting `-1`, then `0`): nothing is
flushed and the static stays `0`. -/
theorem clflushRun_two_failed_queries :
    (∀ call ∈ [ClflushCall.mk (-1) 64 0 8, ClflushCall.mk 0 128 0 8], call.sz ≤ 0) ∧
      clflushRun 1 0 [ClflushCall.mk (-1) 64 0 8, ClflushCall.mk 0 128 0 8] =
        (0, [some [], some []]) :=
  ⟨by decide, clflushRun_of_sysconf_fails 1 _ (by decide)⟩

/-- **Once set, the static makes `sysconf` irrelevant.** Entered with a set
line size, a run does the same whatever `sysconf` would answer each call. -/
theorem clflushRun_sz_irrelevant {cachelineSize : Int} (hc : cachelineSize ≠ 0)
    (fuel : Nat) (answer : ClflushCall → Int) (calls : List ClflushCall) :
    clflushRun fuel cachelineSize (calls.map fun call => { call with sz := answer call }) =
      clflushRun fuel cachelineSize calls := by
  induction calls with
  | nil => rfl
  | cons call calls ih =>
      simp only [List.map_cons, clflushRun, clflushData_cachelineSize, hc, false_and,
        if_false, ih, clflushData_sz_irrelevant hc (answer call) call.sz]

/-- With 64-byte lines cached, a call for which `sysconf` would report `5`
does the same as with `0`. -/
theorem clflushRun_cached_ignores_sysconf :
    (64 : Int) ≠ 0 ∧
      clflushRun 1 64 ([ClflushCall.mk 5 0 64 1].map fun call => { call with sz := 0 }) =
        clflushRun 1 64 [ClflushCall.mk 5 0 64 1] :=
  ⟨by decide, clflushRun_sz_irrelevant (by decide) 1 _ _⟩

/-! ## What each call of a run flushes -/

/-- What a call is for: it ends, and the addresses it flushes are one in each
line of `cs` bytes under its range, in increasing order. -/
def FlushesRange (cs : Nat) (call : ClflushCall) (flushed : Option (List Uintptr)) :
    Prop :=
  ∃ trace, flushed = some trace ∧
    trace.map (fun a => a.toNat / cs) =
      overlappingLines cs (call.base + call.offset).toNat call.len.toNat

/-- A call within the reach of `CacheLine.overlappingLines` at `2 ^ k`-byte
lines: a nonempty range one line clear of `2⁶⁴`, with fuel for one loop
iteration per line. -/
def Fits (k fuel : Nat) (call : ClflushCall) : Prop :=
  0 < call.len.toNat ∧ (call.base + call.offset).toNat + call.len.toNat + 2 ^ k ≤ 2 ^ 64 ∧
    (overlappingLines (2 ^ k) (call.base + call.offset).toNat call.len.toNat).length ≤ fuel

instance (k fuel : Nat) (call : ClflushCall) : Decidable (Fits k fuel call) :=
  inferInstanceAs (Decidable (_ ∧ _ ∧ _))

/-- A call that works with `2 ^ k`-byte lines flushes its range. -/
theorem flushesRange_of_init {cachelineSize : Int} {k fuel : Nat} {call : ClflushCall}
    (hinit : cachelineSizeInit cachelineSize call.sz = some (2 ^ k))
    (hfits : Fits k fuel call) :
    FlushesRange (2 ^ k) call
      (clflushData cachelineSize call.sz call.base call.offset call.len fuel).flushed := by
  obtain ⟨hlen, hfit, hfuel⟩ := hfits
  obtain ⟨trace, htrace, hlines⟩ := flushLoop_lines hlen hfit hfuel
  exact ⟨trace, by rw [clflushData_of_init hinit]; exact htrace, hlines⟩

/-- With `2 ^ k` cached, every call of a run flushes its own range. -/
theorem clflushRun_cached_flushes {k fuel : Nat} (calls : List ClflushCall)
    (hfits : ∀ call ∈ calls, Fits k fuel call) :
    List.Forall₂ (FlushesRange (2 ^ k)) calls (clflushRun fuel (2 ^ k) calls).2 := by
  have hset : (2 : Int) ^ k ≠ 0 := Int.ne_of_gt (by exact_mod_cast Nat.two_pow_pos k)
  induction calls with
  | nil => exact List.Forall₂.nil
  | cons call calls ih =>
      have hinit := cachelineSizeInit_of_ne_zero hset call.sz
      simp only [clflushRun_cons]
      refine .cons (flushesRange_of_init hinit (hfits call (List.mem_cons_self _ _))) ?_
      rw [clflushData_of_init hinit]
      exact ih fun c hc => hfits c (List.mem_cons_of_mem _ hc)

/-- **Every run flushes what each call asks for, once the line size is
known.** Split a run from the initial state at the first call for which
`sysconf` reports a positive size, `2 ^ k`: every call before it returns
without flushing, and that call and every later one flush exactly the lines
under their own ranges, each once and in increasing order, provided each of
those ranges is nonempty, stays one line clear of `2⁶⁴`, and gets one loop
iteration per line. -/
theorem clflushRun_flushes_overlapping_lines {k fuel : Nat} (pre : List ClflushCall)
    (call : ClflushCall) (post : List ClflushCall) (hpre : ∀ c ∈ pre, c.sz ≤ 0)
    (hsz : call.sz = 2 ^ k) (hfits : ∀ c ∈ call :: post, Fits k fuel c) :
    ∃ outs, (clflushRun fuel 0 (pre ++ call :: post)).2 =
        pre.map (fun _ => some []) ++ outs ∧
      List.Forall₂ (FlushesRange (2 ^ k)) (call :: post) outs := by
  have hpos : (0 : Int) < 2 ^ k := by exact_mod_cast Nat.two_pow_pos k
  have hinit : cachelineSizeInit 0 call.sz = some (2 ^ k) := by
    rw [cachelineSizeInit_of_pos (hsz ▸ hpos), hsz]
  refine ⟨_, by rw [clflushRun_append_of_fails fuel hpre], ?_⟩
  simp only [clflushRun_cons]
  refine .cons (flushesRange_of_init hinit (hfits call (List.mem_cons_self _ _))) ?_
  rw [clflushData_of_init hinit]
  exact clflushRun_cached_flushes post fun c hc => hfits c (List.mem_cons_of_mem _ hc)

/-- A failed query, then 64-byte lines from `sysconf` for two calls. -/
theorem clflushRun_flushes_after_failed_query :
    (∀ c ∈ [ClflushCall.mk (-1) 0 0 1], c.sz ≤ 0) ∧ (ClflushCall.mk 64 100 0 60).sz = 2 ^ 6 ∧
      (∀ c ∈ [ClflushCall.mk 64 100 0 60, ClflushCall.mk 7 4096 0 1], Fits 6 2 c) ∧
      ∃ outs, (clflushRun 2 0 ([ClflushCall.mk (-1) 0 0 1] ++
          [ClflushCall.mk 64 100 0 60, ClflushCall.mk 7 4096 0 1])).2 = [some []] ++ outs ∧
        List.Forall₂ (FlushesRange (2 ^ 6))
          [ClflushCall.mk 64 100 0 60, ClflushCall.mk 7 4096 0 1] outs :=
  ⟨by decide, by decide, by decide, clflushRun_flushes_overlapping_lines (k := 6) _ _ _
    (by decide) (by decide) (by decide)⟩

/-! ## A range synced in two pieces -/

/-- **Syncing a range in two abutting pieces flushes the lines of the whole.**
Two calls in a row, for `[s, s + a)` and then for `[s + a, s + a + b)` (at
`offset + a`), flush between them the lines that one call for
`[s, s + a + b)` flushes, in the same order. When the boundary `s + a` is at a
line start the two lists simply follow each other; when it is not, its line is
both the last line the first call flushes and the first the second call
flushes, and listing it once gives the lines of the whole. The second call
finds the line size the first one cached: whatever `sysconf` would answer it,
it flushes the same addresses. -/
theorem clflushRun_split_range {cachelineSize sz : Int} {k : Nat}
    (hinit : cachelineSizeInit cachelineSize sz = some (2 ^ k))
    (base offset a b : Uintptr) (ha : 0 < a.toNat) (hb : 0 < b.toNat)
    (hfit : (base + offset).toNat + a.toNat + b.toNat + 2 ^ k ≤ 2 ^ 64) {fuel : Nat}
    (hfuel : (overlappingLines (2 ^ k) (base + offset).toNat (a.toNat + b.toNat)).length ≤
      fuel) :
    ∃ t₁ t₂ t,
      (∀ sz', (clflushRun fuel cachelineSize
          [⟨sz, base, offset, a⟩, ⟨sz', base, offset + a, b⟩]).2 = [some t₁, some t₂]) ∧
      (clflushRun fuel cachelineSize [⟨sz, base, offset, a + b⟩]).2 = [some t] ∧
      (((base + offset).toNat + a.toNat) % 2 ^ k = 0 →
        t₁.map (fun x => x.toNat / 2 ^ k) ++ t₂.map (fun x => x.toNat / 2 ^ k) =
          t.map (fun x => x.toNat / 2 ^ k)) ∧
      (((base + offset).toNat + a.toNat) % 2 ^ k ≠ 0 →
        (t₁.map (fun x => x.toNat / 2 ^ k)).getLast? =
            some (((base + offset).toNat + a.toNat) / 2 ^ k) ∧
          (t₂.map (fun x => x.toNat / 2 ^ k)).head? =
            some (((base + offset).toNat + a.toNat) / 2 ^ k) ∧
          t₁.map (fun x => x.toNat / 2 ^ k) ++ (t₂.map (fun x => x.toNat / 2 ^ k)).tail =
            t.map (fun x => x.toNat / 2 ^ k)) := by
  have hc := Nat.two_pow_pos k
  have hset : (2 : Int) ^ k ≠ 0 := Int.ne_of_gt (by exact_mod_cast hc)
  have hab : (a + b).toNat = a.toNat + b.toNat := by
    rw [BitVec.toNat_add, Nat.mod_eq_of_lt (by omega)]
  have hmid : (base + (offset + a)).toNat = (base + offset).toNat + a.toNat := by
    rw [← BitVec.add_assoc, BitVec.toNat_add, Nat.mod_eq_of_lt (by omega)]
  obtain ⟨t₁, h₁, l₁⟩ := @flushLoop_lines k (base + offset) a ha (by omega) fuel
    ((length_overlappingLines_le (Nat.le_refl _) (by omega)).trans hfuel)
  obtain ⟨t₂, h₂, l₂⟩ := @flushLoop_lines k (base + (offset + a)) b hb (by omega) fuel
    ((length_overlappingLines_le (by omega) (by omega)).trans hfuel)
  obtain ⟨t, h, l⟩ := @flushLoop_lines k (base + offset) (a + b) (by omega) (by omega) fuel
    (by rw [hab]; exact hfuel)
  refine ⟨t₁, t₂, t, fun sz' => ?_, ?_, fun hal => ?_, fun hal => ?_⟩
  · simp only [clflushRun_cons, clflushRun_nil, clflushData_of_init hinit,
      clflushData_of_init (cachelineSizeInit_of_ne_zero hset sz'), h₁, h₂]
  · simp only [clflushRun_cons, clflushRun_nil, clflushData_of_init hinit, h]
  · rw [l₁, l₂, l, hmid, hab]
    exact overlappingLines_append_of_mod_eq_zero ha hb hal
  · -- the boundary line ends the first range's lines and starts the second's
    rw [l₁, l₂, l, hmid, hab, getLast?_overlappingLines ha, head?_overlappingLines hb,
      sub_one_div_of_mod_ne_zero (by omega) hal]
    exact ⟨rfl, rfl, overlappingLines_append_tail ha hb hal⟩

/-- `[100, 160)` synced as `[100, 110)` and `[110, 160)` with 64-byte lines from
`sysconf`: the boundary `110` is inside line `1`, which both calls flush. -/
theorem clflushRun_split_inside_a_line :
    cachelineSizeInit 0 64 = some (2 ^ 6) ∧
      ∃ t₁ t₂ t,
        (∀ sz', (clflushRun 2 0 [⟨64, 100, 0, 10⟩, ⟨sz', 100, 0 + 10, 50⟩]).2 =
          [some t₁, some t₂]) ∧
        (clflushRun 2 0 [⟨64, 100, 0, 10 + 50⟩]).2 = [some t] ∧
        (t₁.map (fun x => x.toNat / 2 ^ 6)).getLast? = some 1 ∧
        (t₂.map (fun x => x.toNat / 2 ^ 6)).head? = some 1 ∧
        t₁.map (fun x => x.toNat / 2 ^ 6) ++ (t₂.map (fun x => x.toNat / 2 ^ 6)).tail =
          t.map (fun x => x.toNat / 2 ^ 6) := by
  obtain ⟨t₁, t₂, t, hsplit, hwhole, -, hinside⟩ := @clflushRun_split_range 0 64 6 (by decide)
    100 0 10 50 (by decide) (by decide) (by decide) 2 (by decide)
  obtain ⟨hlast, hhead, hlines⟩ := hinside (by decide)
  exact ⟨by decide, t₁, t₂, t, hsplit, hwhole, hlast.trans (by decide),
    hhead.trans (by decide), hlines⟩

end RocrRuntime.Xdna.ClflushRun
