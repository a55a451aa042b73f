import VmwareProto.Library.Ring
import Mathlib.Analysis.Real.Sqrt
import Mathlib.Data.Nat.Prime.Infinite
import Mathlib.Order.Bounds.Basic
import Mathlib.Tactic.IntervalCases
import Mathlib.Tactic.NormNum.Prime
/-!
# `next_prime`

Trial division by the primes found so far, which are kept in a list: while
the last of them is too small, the next number is divided by one after the
other and appended if none divides it. Above 100 the division stops at the
square root. The list is all primes below the next number, in order; that
is why a number is prime if no prime of the list divides it.
-/

namespace VmwareProto

namespace Common

/-- The arithmetic of doubles the loop uses: `sqrt` of a number, and the
rounding of a sum or of a converted number. -/
structure Doubles where
  sqrt : ℕ → ℚ
  round : ℚ → ℚ
  round_mono : Monotone round

/-- `sqrt` is within 1 of the square root. -/
def Doubles.Close (D : Doubles) : Prop := ∀ n < 2 ^ 64, |(D.sqrt n : ℝ) - √n| ≤ 1

/-- `next_prime`: its variables, its list (`none` is the head) and its
memory. -/
structure Primes where
  links : Links (Option ℕ)
  prime : ℕ → ℕ
  /-- the nodes that were allocated and not freed -/
  live : ℕ → Bool
  lastprime : ℕ
  next : ℕ

namespace Primes

variable (D : Doubles) (malloc : ℕ ↪ ℕ) (num : ℕ) (P : Primes)

/-- The node that `malloc` returns gets the number `p`. -/
def store (p : ℕ) : Primes :=
  { P with
    prime := Function.update P.prime (malloc p) p
    live := Function.update P.live (malloc p) true }

/-- The list with 2, before the loop; what the memory held before it does not
matter. -/
def start (L : Links (Option ℕ)) (prime : ℕ → ℕ) : Primes :=
  let P : Primes := ⟨L.init none, prime, fun _ => false, 2, 3⟩
  { P.store malloc 2 with links := P.links.add none (some (malloc 2)) }

/-- The walk over the list from node `t`: what `found` is after it. It is cut
off when it takes longer than `next` allows. -/
def found : ℕ → Option ℕ → Option Bool
  | 0, _ => none
  | _ + 1, none => some false
  | fuel + 1, some a =>
      if 100 < P.next ∧ D.round (D.sqrt P.next + 1) < D.round (P.prime a) then some false
      else if P.next % P.prime a = 0 then some true
      else found fuel (P.links.next (some a))

/-- `next` is a prime. -/
def append : Primes :=
  { P.store malloc P.next with
    links := P.links.revAdd none (some (malloc P.next)), lastprime := P.next }

/-- One turn of the loop. -/
def turn : Option Primes :=
  (P.found D (P.next + 1) (P.links.next none)).map fun found =>
    { (if found = true then P else P.append malloc) with next := (P.next + 1) % 2 ^ 64 }

/-- `while (lastprime < num)`. -/
def search : ℕ → Primes → Option Primes
  | 0, _ => none
  | fuel + 1, P => if P.lastprime < num then (P.turn D malloc).bind (search fuel) else some P

/-- The list is freed, node by node; none is freed twice. -/
def free : ℕ → Primes → Option Primes
  | 0, _ => none
  | fuel + 1, P =>
      if P.links.isEmpty none = true then some P
      else
        match P.links.next none with
        | none => none
        | some a =>
            if P.live a = true then
              free fuel { P with
                links := P.links.rem (some a), live := Function.update P.live a false }
            else none

/-- `next_prime`: what it returns, and what it leaves. -/
def nextPrime (L : Links (Option ℕ)) (prime : ℕ → ℕ) (fuel : ℕ) : Option (ℕ × Primes) :=
  (search D malloc num fuel (start malloc L prime)).bind fun P =>
    (free fuel P).map fun Q => (P.lastprime, Q)

/-! ## Trial division -/

variable {D malloc num P} {n p q T fuel : ℕ} {nodes : List ℕ}

/-- **The early end**: a prime above the computed root is above the square
root. -/
theorem lt_of_break (hD : D.Close) (hn : n < 2 ^ 64)
    (h : D.round (D.sqrt n + 1) < D.round q) : n < q ^ 2 := by
  by_contra hle
  rw [not_lt] at hle
  have hroot : (q : ℝ) ≤ √n := Real.le_sqrt_of_sq_le (by exact_mod_cast hle)
  have hclose : √n ≤ (D.sqrt n : ℝ) + 1 := by
    have := (abs_le.1 (hD n hn)).1
    linarith
  have hrat : (q : ℚ) ≤ D.sqrt n + 1 := by exact_mod_cast hroot.trans hclose
  exact absurd (D.round_mono hrat) (not_le.2 h)

/-- **What the walk finds.** The nodes `nodes` lie behind `t`; they hold
primes below `next`, in order, and all that divide it. -/
theorem found_spec (hD : D.Close) (h64 : P.next < 2 ^ 64) (h2 : 2 ≤ P.next) {t : Option ℕ}
    (hc : P.links.Chain t (nodes.map some) none)
    (hsort : (nodes.map P.prime).Pairwise (· < ·))
    (hprime : ∀ a ∈ nodes, (P.prime a).Prime ∧ P.prime a < P.next)
    (hall : ∀ p, p.Prime → p < P.next → p ∣ P.next → ∃ a ∈ nodes, P.prime a = p)
    (hf : nodes.length < fuel) :
    P.found D fuel (P.links.next t) = some (!decide P.next.Prime) := by
  have hcomposite : ¬P.next.Prime → P.next.minFac.Prime ∧ P.next.minFac < P.next ∧
      P.next.minFac ∣ P.next ∧ P.next.minFac ^ 2 ≤ P.next := by
    intro hnp
    have hmin : P.next.minFac.Prime := Nat.minFac_prime (by omega)
    refine ⟨hmin, (Nat.minFac_le (by omega)).lt_of_ne fun e => hnp ?_, Nat.minFac_dvd _,
      Nat.minFac_sq_le_self (by omega) hnp⟩
    rwa [e] at hmin
  induction nodes generalizing t fuel with
  | nil =>
      obtain ⟨fuel, rfl⟩ := Nat.exists_eq_add_one_of_ne_zero (Nat.ne_of_gt hf)
      have hp : P.next.Prime := by
        by_contra hnp
        obtain ⟨hmin, hlt, hdvd, -⟩ := hcomposite hnp
        obtain ⟨a, ha, -⟩ := hall _ hmin hlt hdvd
        cases ha
      rw [hc.1, found]
      simp [hp]
  | cons a nodes ih =>
      obtain ⟨fuel, rfl⟩ := Nat.exists_eq_add_one_of_ne_zero (Nat.ne_of_gt (Nat.zero_lt_of_lt hf))
      obtain ⟨hnext, -, hc⟩ := hc
      rw [List.map_cons, List.pairwise_cons] at hsort
      obtain ⟨ha, halt⟩ := hprime a (by simp)
      rw [hnext, found]
      split
      · -- the division stops at the square root
        rename_i hbreak
        have hq := lt_of_break hD h64 hbreak.2
        have hp : P.next.Prime := by
          by_contra hnp
          obtain ⟨hmin, hlt, hdvd, hsq⟩ := hcomposite hnp
          obtain ⟨b, hb, hbp⟩ := hall _ hmin hlt hdvd
          have hle : P.prime a ≤ P.next.minFac := by
            rw [← hbp]
            rcases List.mem_cons.1 hb with rfl | hb
            · exact le_rfl
            · exact (hsort.1 _ (List.mem_map_of_mem hb)).le
          exact absurd (Nat.pow_le_pow_left hle 2) (by omega)
        simp [hp]
      · split
        · -- a divisor is found
          rename_i hdvd
          have hnp : ¬P.next.Prime := fun hp =>
            (Nat.ne_of_lt halt) ((Nat.prime_dvd_prime_iff_eq ha hp).1 (Nat.dvd_of_mod_eq_zero hdvd))
          simp [hnp]
        · rename_i hdvd
          refine ih hc hsort.2 (fun b hb => hprime b (List.mem_cons_of_mem _ hb))
            (fun p hp hlt hpd => ?_) (by simpa using hf)
          obtain ⟨b, hb, hbp⟩ := hall p hp hlt hpd
          rcases List.mem_cons.1 hb with rfl | hb
          · exact absurd (Nat.mod_eq_zero_of_dvd (hbp ▸ hpd)) hdvd
          · exact ⟨b, hb, hbp⟩

/-! ## The list -/

/-- The list is all primes below `next`, in order, in the nodes that were
allocated. -/
structure Sieve (malloc : ℕ ↪ ℕ) (P : Primes) (nodes : List ℕ) : Prop where
  ring : P.links.Ring none (nodes.map some)
  primes : nodes.map P.prime = (List.range P.next).filter fun p => decide p.Prime
  live : ∀ a, P.live a = true ↔ a ∈ nodes
  /-- each node is the one that its prime got from `malloc` -/
  addr : ∀ a ∈ nodes, malloc (P.prime a) = a
  last_prime : P.lastprime.Prime
  last_lt : P.lastprime < P.next
  last_max : ∀ p, p.Prime → p < P.next → p ≤ P.lastprime
  two_lt : 2 < P.next

theorem Sieve.mem_iff (h : Sieve malloc P nodes) :
    (∃ a ∈ nodes, P.prime a = p) ↔ p.Prime ∧ p < P.next := by
  rw [← List.mem_map, h.primes, List.mem_filter, List.mem_range, decide_eq_true_iff, and_comm]

theorem Sieve.found (h : Sieve malloc P nodes) (hD : D.Close) (h64 : P.next < 2 ^ 64) :
    P.found D (P.next + 1) (P.links.next none) = some (!decide P.next.Prime) := by
  have hlen : nodes.length ≤ P.next := by
    have := List.length_filter_le (fun p => decide p.Prime) (List.range P.next)
    rw [← h.primes, List.length_map, List.length_range] at this
    exact this
  refine found_spec hD h64 h.two_lt.le h.ring.chain ?_ (fun a ha => h.mem_iff.1 ⟨a, ha, rfl⟩)
    (fun p hp hlt _ => h.mem_iff.2 ⟨hp, hlt⟩) (by omega)
  rw [h.primes]
  exact List.pairwise_lt_range.filter _

theorem filter_range_succ (n : ℕ) : (List.range (n + 1)).filter (fun p => decide p.Prime) =
    (List.range n).filter (fun p => decide p.Prime) ++ if n.Prime then [n] else [] := by
  rw [List.range_succ, List.filter_append]
  split <;> rename_i h <;> simp [h]

/-- **A prime is appended.** -/
theorem Sieve.append (h : Sieve malloc P nodes) (hp : P.next.Prime) :
    Sieve malloc { P.append malloc with next := P.next + 1 } (nodes ++ [malloc P.next]) := by
  have hfresh : malloc P.next ∉ nodes := by
    intro hm
    have hlt := (h.mem_iff.1 ⟨_, hm, rfl⟩).2
    rw [malloc.injective (h.addr _ hm)] at hlt
    exact lt_irrefl _ hlt
  have hne : ∀ a ∈ nodes, a ≠ malloc P.next := fun a ha e => hfresh (e ▸ ha)
  have hstay : ∀ a ∈ nodes, Function.update P.prime (malloc P.next) P.next a = P.prime a :=
    fun a ha => Function.update_of_ne (hne a ha) _ _
  refine ⟨?_, ?_, fun a => ?_, fun a ha => ?_, hp, Nat.lt_succ_self _, fun p _ hlt =>
    Nat.le_of_lt_succ hlt, h.two_lt.trans (Nat.lt_succ_self _)⟩
  · rw [List.map_append]
    exact h.ring.revAdd (by simpa using hfresh)
  · rw [filter_range_succ, if_pos hp, List.map_append, ← h.primes]
    exact congrArg₂ _ (List.map_congr_left hstay)
      (congrArg (fun q => [q]) (Function.update_self _ _ _))
  · show Function.update P.live (malloc P.next) true a = true ↔ _
    by_cases ha : a = malloc P.next
    · simp [ha]
    · rw [Function.update_of_ne ha, h.live]
      simp [ha]
  · show malloc (Function.update P.prime (malloc P.next) P.next a) = a
    rcases List.mem_append.1 ha with ha | ha
    · rw [hstay a ha, h.addr a ha]
    · rw [List.mem_singleton.1 ha, Function.update_self]

/-- A number that is no prime leaves the list as it is. -/
theorem Sieve.skip (h : Sieve malloc P nodes) (hp : ¬P.next.Prime) :
    Sieve malloc { P with next := P.next + 1 } nodes := by
  refine ⟨h.ring, ?_, h.live, h.addr, h.last_prime, h.last_lt.trans (Nat.lt_succ_self _),
    fun p hp' hlt => ?_, h.two_lt.trans (Nat.lt_succ_self _)⟩
  · rw [filter_range_succ, if_neg hp, List.append_nil]
    exact h.primes
  · rcases Nat.lt_succ_iff_lt_or_eq.1 hlt with hlt | rfl
    · exact h.last_max p hp' hlt
    · exact absurd hp' hp

/-- **One turn.** -/
theorem Sieve.turn (h : Sieve malloc P nodes) (hD : D.Close) (h64 : P.next + 1 < 2 ^ 64) :
    ∃ P' nodes', P.turn D malloc = some P' ∧ Sieve malloc P' nodes' ∧ P'.next = P.next + 1 ∧
      P'.lastprime = if P.next.Prime then P.next else P.lastprime := by
  rw [Primes.turn, h.found hD (by omega), Option.map_some, Nat.mod_eq_of_lt h64]
  by_cases hp : P.next.Prime
  · have hfound : (!decide P.next.Prime) = false := by simp [hp]
    rw [hfound, if_pos hp]
    exact ⟨_, _, rfl, h.append hp, rfl, rfl⟩
  · have hfound : (!decide P.next.Prime) = true := by simp [hp]
    rw [hfound, if_neg hp]
    exact ⟨_, _, rfl, h.skip hp, rfl, rfl⟩

/-- The loop at its start. -/
theorem sieve_start (malloc : ℕ ↪ ℕ) (L : Links (Option ℕ)) (prime : ℕ → ℕ) :
    Sieve malloc (start malloc L prime) [malloc 2] := by
  refine ⟨?_, ?_, fun a => ?_, fun a ha => ?_, Nat.prime_two, Nat.lt_succ_self 2,
    fun p hp hlt => Nat.le_of_lt_succ hlt, Nat.lt_succ_self 2⟩
  · exact Links.ring_init.add (by simp)
  · show [Function.update prime (malloc 2) 2 (malloc 2)] =
      (List.range 3).filter fun p => decide p.Prime
    rw [Function.update_self, filter_range_succ, if_pos Nat.prime_two, filter_range_succ,
      if_neg Nat.not_prime_one, filter_range_succ, if_neg Nat.not_prime_zero]
    rfl
  · show Function.update (fun _ => false) (malloc 2) true a = true ↔ _
    by_cases ha : a = malloc 2 <;> simp [ha]
  · show malloc (Function.update prime (malloc 2) 2 a) = a
    rw [List.mem_singleton.1 ha, Function.update_self]

/-- The largest number of 64 bits is no prime. -/
theorem lt_of_prime (hT : T.Prime) (h : T < 2 ^ 64) : T + 1 < 2 ^ 64 := by
  refine lt_of_le_of_ne h fun e => ?_
  have hdvd : 3 ∣ T := by omega
  have h3 : 3 = T := (Nat.prime_dvd_prime_iff_eq Nat.prime_three hT).1 hdvd
  omega

/-- **The search** comes to the least prime that is large enough. -/
theorem Sieve.search (h : Sieve malloc P nodes) (hD : D.Close)
    (hT : IsLeast {p | p.Prime ∧ max num 2 ≤ p} T) (h64 : T < 2 ^ 64) (hle : P.lastprime ≤ T)
    (hnext : P.next ≤ T + 1) (hf : T + 1 < P.next + fuel) :
    ∃ P' nodes', Primes.search D malloc num fuel P = some P' ∧ Sieve malloc P' nodes' ∧
      P'.lastprime = T ∧ P'.next ≤ T + 1 := by
  obtain ⟨⟨hprime, hmax⟩, hleast⟩ := hT
  have hT64 := lt_of_prime hprime h64
  induction fuel generalizing P nodes with
  | zero => exact absurd hf (by omega)
  | succ fuel ih =>
      rw [Primes.search]
      by_cases hlt : P.lastprime < num
      · have hnT : P.next ≤ T := by
          by_contra hn
          have hTl := h.last_max T hprime (by omega)
          omega
        obtain ⟨P', nodes', hx, h', hn', hl'⟩ := h.turn hD (by omega)
        have hle' : P'.lastprime ≤ T := by
          rw [hl']
          split <;> assumption
        rw [if_pos hlt, hx, Option.bind_some]
        exact ih h' hle' (by omega) (by omega)
      · have hge : T ≤ P.lastprime := hleast ⟨h.last_prime, by
          have := h.last_prime.two_le
          omega⟩
        rw [if_neg hlt]
        exact ⟨P, nodes, rfl, h, by omega, hnext⟩

/-! ## The list is freed -/

/-- **The list is freed**, node by node. -/
theorem free_spec (hr : P.links.Ring none (nodes.map some))
    (hlive : ∀ a, P.live a = true ↔ a ∈ nodes) (hf : nodes.length < fuel) :
    ∃ Q, free fuel P = some Q ∧ ∀ a, Q.live a = false := by
  induction nodes generalizing P fuel with
  | nil =>
      obtain ⟨fuel, rfl⟩ := Nat.exists_eq_add_one_of_ne_zero (Nat.ne_of_gt hf)
      refine ⟨P, ?_, fun a => ?_⟩
      · rw [free, if_pos (hr.isEmpty_iff.2 rfl)]
      · rw [Bool.eq_false_iff, ne_eq, hlive]
        exact List.not_mem_nil
  | cons a nodes ih =>
      obtain ⟨fuel, rfl⟩ := Nat.exists_eq_add_one_of_ne_zero (Nat.ne_of_gt (Nat.zero_lt_of_lt hf))
      have hnd : (a :: nodes).Nodup := List.Nodup.of_map _ (List.nodup_cons.1 hr.nodup).2
      have hempty : ¬P.links.isEmpty none = true := fun he => by
        cases hr.isEmpty_iff.1 he
      have hnext : P.links.next none = some a := hr.chain.1
      have hrem : (P.links.rem (some a)).Ring none (nodes.map some) :=
        (show P.links.Ring none ([] ++ some a :: nodes.map some) from hr).rem.1
      rw [free, if_neg hempty, hnext]
      simp only [(hlive a).2 (by simp), if_true]
      refine ih hrem (fun b => ?_) (by simpa using hf)
      show Function.update P.live a false b = true ↔ b ∈ nodes
      by_cases hb : b = a
      · rw [hb, Function.update_self]
        exact iff_of_false (by decide) (List.nodup_cons.1 hnd).1
      · rw [Function.update_of_ne hb, hlive]
        simp [hb]

/-- **`next_prime` is right for every argument** up to the largest prime of
64 bits: it ends, returns the least prime that is at least `num` and at
least 2, and leaves no node behind. -/
theorem nextPrime_isLeast (D : Doubles) (hD : D.Close) (malloc : ℕ ↪ ℕ) (num : ℕ)
    (hnum : ∃ p, p.Prime ∧ num ≤ p ∧ p < 2 ^ 64) (L : Links (Option ℕ)) (prime : ℕ → ℕ) :
    ∃ N, ∀ fuel, N ≤ fuel → ∃ T Q, nextPrime D malloc num L prime fuel = some (T, Q) ∧
      IsLeast {p | p.Prime ∧ max num 2 ≤ p} T ∧ ∀ a, Q.live a = false := by
  obtain ⟨p, hp, hnp, hp64⟩ := hnum
  have hex : ∃ q, q.Prime ∧ max num 2 ≤ q := ⟨p, hp, by have := hp.two_le; omega⟩
  classical
  have hT : IsLeast {p | p.Prime ∧ max num 2 ≤ p} (Nat.find hex) :=
    ⟨Nat.find_spec hex, fun q hq => Nat.find_min' hex hq⟩
  have hTp : Nat.find hex ≤ p := Nat.find_min' hex ⟨hp, by have := hp.two_le; omega⟩
  have hT2 : 2 ≤ Nat.find hex := (Nat.find_spec hex).1.two_le
  refine ⟨Nat.find hex + 2, fun fuel hfuel => ?_⟩
  obtain ⟨P, nodes, hx, hS, hl, hn⟩ := (sieve_start malloc L prime).search
    hD hT (by omega) hT2 (show 3 ≤ _ by omega) (show _ < 3 + fuel by omega)
  have hlen : nodes.length ≤ P.next := by
    have := List.length_filter_le (fun p => decide p.Prime) (List.range P.next)
    rw [← hS.primes, List.length_map, List.length_range] at this
    exact this
  obtain ⟨Q, hfree, hlive⟩ := free_spec hS.ring hS.live (show nodes.length < fuel by omega)
  refine ⟨Nat.find hex, Q, ?_, hT, hlive⟩
  rw [nextPrime, hx, Option.bind_some, hfree, Option.map_some, hl]

/-- The square root cut down to a natural number, without rounding. -/
def floored : Doubles := ⟨fun n => Nat.sqrt n, fun x => x, monotone_id⟩

theorem floored_close : floored.Close := by
  intro n _
  have hle : (Nat.sqrt n : ℝ) ≤ √n := Real.nat_sqrt_le_real_sqrt
  have hlt : √n ≤ (Nat.sqrt n : ℝ) + 1 := Real.real_sqrt_le_nat_sqrt_succ
  have hcast : (floored.sqrt n : ℝ) = (Nat.sqrt n : ℝ) := Rat.cast_natCast _
  rw [hcast, abs_le]
  constructor <;> linarith

/-- Above 100 the divisions stop early: those of 101 at 13. -/
theorem nextPrime_isLeast_hundred_ten : floored.round (floored.sqrt 101 + 1) < floored.round 13 ∧
    ∃ N, ∀ fuel, N ≤ fuel → ∃ Q,
      nextPrime floored (Function.Embedding.refl ℕ) 110 ⟨fun _ => none, fun _ => none⟩
        (fun _ => 0) fuel = some (113, Q) ∧ ∀ a, Q.live a = false := by
  have hsqrt : Nat.sqrt 101 = 10 := (Nat.eq_sqrt.2 (by decide)).symm
  have hprime : Nat.Prime 113 := by norm_num
  constructor
  · show ((Nat.sqrt 101 : ℕ) : ℚ) + 1 < 13
    rw [hsqrt]
    norm_num
  · obtain ⟨N, hN⟩ := nextPrime_isLeast floored floored_close (Function.Embedding.refl ℕ) 110
      ⟨113, hprime, by decide, by decide⟩ ⟨fun _ => none, fun _ => none⟩ (fun _ => 0)
    refine ⟨N, fun fuel hf => ?_⟩
    obtain ⟨T, Q, hx, ⟨⟨hT, hle⟩, hleast⟩, hlive⟩ := hN fuel hf
    have hT' : T ≤ 113 := hleast ⟨hprime, by decide⟩
    have hge : 110 ≤ T := (le_max_left _ _).trans hle
    have h113 : T = 113 := by
      interval_cases T <;> first | rfl | exact absurd hT (by norm_num)
    exact ⟨Q, by rw [hx, h113], hlive⟩

end Primes

end Common

end VmwareProto
