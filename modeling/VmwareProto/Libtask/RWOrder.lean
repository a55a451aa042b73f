import VmwareProto.Libtask.RWLock
/-!
# A lock and its log

What an `RWLock` has in its fields is what its log says, whoever reads or
writes does so alone as a lock promises, and a free lock has nobody
waiting. While a reader waits, nobody is let in but one writer; while a
writer waits, those that came before it are, and between two of them each
waiting reader once.
-/

namespace VmwareProto

namespace Libtask

namespace RWLock

open Admission

/-- **What the fields say.** -/
structure Kept (L : RWLock) (log : List (Event TaskId Mode)) : Prop where
  readers : L.readers = (inside .reader log).length
  writer : inside .writer log = L.writer.toList
  rwaiting : waiting .reader log = L.rwaiting
  wwaiting : waiting .writer log = L.wwaiting
  alone : L.writer ≠ none → L.readers = 0
  free : L.writer = none → L.readers = 0 → L.wwaiting = []
  held : L.writer = none → L.wwaiting = [] → L.rwaiting = []

/-- **Who has been let in before whom.** -/
structure Orderly (L : RWLock) (log : List (Event TaskId Mode)) : Prop where
  nodup : (L.rwaiting ++ L.wwaiting).Nodup
  reader : ∀ t ∈ L.rwaiting, ∃ pre post, Since t .reader log pre post ∧
    (admitted post = [] ∨ ∃ w, L.writer = some w ∧ admitted post = [(w, .writer)])
  writer : ∀ (k : ℕ) (t : TaskId), L.wwaiting[k]? = some t → ∃ pre post,
    Since t .writer log pre post ∧ (∀ u m, .enters u m ∉ post) ∧
      admittedIn .writer post ++ L.wwaiting.take k = waiting .writer pre ∧
        ∀ u, (admittedIn .reader post).count u + L.writer.toList.length ≤
          (admittedIn .writer post).length + 1

variable {L L' : RWLock} {log : List (Event TaskId Mode)} {t u w : TaskId} {ws : List TaskId}
  {m : Mode}

theorem Kept.new : Kept ⟨0, none, [], []⟩ [] :=
  ⟨rfl, rfl, rfl, rfl, fun h => absurd rfl h, fun _ _ => rfl, fun _ _ => rfl⟩

theorem Orderly.new : Orderly ⟨0, none, [], []⟩ [] :=
  ⟨List.nodup_nil, by simp, by simp⟩

/-- A lock for which nobody waits. -/
theorem Orderly.of_nobody (hr : L.rwaiting = []) (hw : L.wwaiting = []) : Orderly L log :=
  ⟨by simp [hr, hw], by simp [hr], by simp [hw]⟩

/-! ## Locking -/

/-- A reader is let in at once. -/
theorem Kept.reads (h : L.Kept log) (hw : L.writer = none) (hq : L.wwaiting = []) :
    Kept { L with readers := L.readers + 1 } (log ++ [.enters t .reader]) := by
  refine ⟨?_, ?_, ?_, ?_, fun hn => absurd hw hn, fun _ _ => hq, h.held⟩
  · simp [inside_append, Event.inside, h.readers]
  · simpa [inside_append, Event.inside] using h.writer
  · simpa [waiting_append, Event.queue] using h.rwaiting
  · simpa [waiting_append, Event.queue] using h.wwaiting

/-- A writer is. -/
theorem Kept.writes (h : L.Kept log) (hw : L.writer = none) (hr : L.readers = 0) :
    Kept { L with writer := some t } (log ++ [.enters t .writer]) := by
  refine ⟨?_, ?_, ?_, ?_, fun _ => hr, fun hn => by simp at hn, fun hn => by simp at hn⟩
  · simpa [inside_append, Event.inside] using h.readers
  · simp [inside_append, Event.inside, h.writer, hw]
  · simpa [waiting_append, Event.queue] using h.rwaiting
  · simpa [waiting_append, Event.queue] using h.wwaiting

/-- A reader waits. -/
theorem Kept.waits_reader (h : L.Kept log) (hb : ¬(L.writer = none ∧ L.wwaiting = [])) :
    Kept { L with rwaiting := L.rwaiting ++ [t] } (log ++ [.waits t .reader]) := by
  refine ⟨?_, ?_, ?_, ?_, h.alone, h.free, fun hw hq => absurd ⟨hw, hq⟩ hb⟩
  · simpa [inside_append, Event.inside] using h.readers
  · simpa [inside_append, Event.inside] using h.writer
  · simp [waiting_append, Event.queue, h.rwaiting]
  · simpa [waiting_append, Event.queue] using h.wwaiting

/-- A writer waits. -/
theorem Kept.waits_writer (h : L.Kept log) (hb : ¬(L.writer = none ∧ L.readers = 0)) :
    Kept { L with wwaiting := L.wwaiting ++ [t] } (log ++ [.waits t .writer]) := by
  refine ⟨?_, ?_, ?_, ?_, h.alone, fun hw hr => absurd ⟨hw, hr⟩ hb, fun _ hq => by simp at hq⟩
  · simpa [inside_append, Event.inside] using h.readers
  · simpa [inside_append, Event.inside] using h.writer
  · simpa [waiting_append, Event.queue] using h.rwaiting
  · simp [waiting_append, Event.queue, h.wwaiting]

/-- Whoever waits goes on to wait while another begins to. -/
theorem since_other {pre post : List (Event TaskId Mode)} (h : Since u m log pre post)
    (hut : u ≠ t) (m' : Mode) :
    Since u m (log ++ [.waits t m']) pre (post ++ [.waits t m']) :=
  h.append fun m'' hm => hut (by simp at hm; exact hm.1)

theorem admitted_waits (post : List (Event TaskId Mode)) (t : TaskId) (m : Mode) :
    admitted (post ++ [.waits t m]) = admitted post := by
  rw [admitted_append]
  exact List.append_nil _

theorem admittedIn_waits (post : List (Event TaskId Mode)) (t : TaskId) (m m' : Mode) :
    admittedIn m' (post ++ [.waits t m]) = admittedIn m' post := by
  rw [admittedIn, admitted_waits, admittedIn]

/-- The writers that wait are not concerned by another one's waiting. -/
theorem Orderly.writer_waits (h : L.Orderly log) {k : ℕ} (hk : L.wwaiting[k]? = some u)
    (hut : u ≠ t) (m' : Mode) : ∃ pre post, Since u .writer (log ++ [.waits t m']) pre post ∧
      (∀ v m, .enters v m ∉ post) ∧
        admittedIn .writer post ++ L.wwaiting.take k = waiting .writer pre ∧
          ∀ v, (admittedIn .reader post).count v + L.writer.toList.length ≤
            (admittedIn .writer post).length + 1 := by
  obtain ⟨pre, post, hs, he, hq, hc⟩ := h.writer k u hk
  refine ⟨pre, _, since_other hs hut m', fun v m hm => ?_, ?_, ?_⟩
  · rcases List.mem_append.1 hm with hm | hm
    · exact he v m hm
    · simp at hm
  · rw [admittedIn_waits]
    exact hq
  · simpa only [admittedIn_waits] using hc

theorem Orderly.waits_reader (h : L.Orderly log) (ht : t ∉ L.rwaiting ++ L.wwaiting) :
    Orderly { L with rwaiting := L.rwaiting ++ [t] } (log ++ [.waits t .reader]) := by
  rw [List.mem_append, not_or] at ht
  refine ⟨?_, fun u hu => ?_, fun k u hk => ?_⟩
  · have hnd := h.nodup
    grind
  · rcases List.mem_append.1 hu with hu | hu
    · obtain ⟨pre, post, hs, hp⟩ := h.reader u hu
      refine ⟨pre, _, since_other hs (ne_of_mem_of_not_mem hu ht.1) .reader, ?_⟩
      simpa only [admitted_waits] using hp
    · obtain rfl := List.mem_singleton.1 hu
      exact ⟨_, _, since_waits u .reader log, .inl rfl⟩
  · exact h.writer_waits hk (ne_of_mem_of_not_mem (List.mem_of_getElem? hk) ht.2) .reader

theorem Orderly.waits_writer (h : L.Orderly log) (hk : L.Kept log)
    (ht : t ∉ L.rwaiting ++ L.wwaiting) :
    Orderly { L with wwaiting := L.wwaiting ++ [t] } (log ++ [.waits t .writer]) := by
  rw [List.mem_append, not_or] at ht
  refine ⟨?_, fun u hu => ?_, fun k u hu => ?_⟩
  · have hnd := h.nodup
    grind
  · obtain ⟨pre, post, hs, hp⟩ := h.reader u hu
    refine ⟨pre, _, since_other hs (ne_of_mem_of_not_mem hu ht.1) .writer, ?_⟩
    simpa only [admitted_waits] using hp
  · rcases Nat.lt_or_ge k L.wwaiting.length with hlt | hge
    · rw [List.getElem?_append_left hlt] at hu
      have := h.writer_waits hu (ne_of_mem_of_not_mem (List.mem_of_getElem? hu) ht.2) .writer
      rwa [List.take_append_of_le_length (Nat.le_of_lt hlt)]
    · rw [List.getElem?_append_right hge] at hu
      obtain ⟨hlt, e⟩ := List.getElem?_eq_some_iff.1 hu
      rw [List.length_singleton] at hlt
      rw [List.getElem_singleton] at e
      rw [← e]
      refine ⟨_, _, since_waits _ .writer log, by simp, ?_, fun v => ?_⟩
      · rw [show k = L.wwaiting.length by omega, List.take_left, hk.wwaiting]
        rfl
      · cases L.writer <;> simp [admittedIn, admitted]

/-! ## Unlocking -/

theorem handover_waiting (L : RWLock) : L.wwaiting = L.handover.2.toList ++ L.handover.1.wwaiting ∧
    L.handover.1.rwaiting = L.rwaiting := by
  unfold handover
  split
  · split
    · rename_i hq
      simp [hq]
    · rename_i hq
      simp [hq]
  · simp

theorem handover_readers (L : RWLock) : L.handover.1.readers = L.readers := by
  unfold handover
  split
  · split <;> rfl
  · rfl

/-- What the loop of `wunlock` comes to. -/
theorem letReadersIn_eq (L : RWLock) (ts : List TaskId) :
    L.letReadersIn ts = { L with rwaiting := [], readers := L.readers + ts.length } := by
  induction ts generalizing L with
  | nil => simp [letReadersIn]
  | cons t ts ih =>
      rw [letReadersIn, ih, List.length_cons]
      simp only [RWLock.mk.injEq, and_true]
      omega

/-- Who leaves was inside, so there is one less. -/
theorem Kept.mem_reader (h : L.Kept log) (ht : t ∈ inside .reader log) :
    L.writer = none ∧ L.readers - 1 = ((inside .reader log).erase t).length := by
  have hpos := List.length_pos_of_mem ht
  have hr := h.readers
  refine ⟨?_, ?_⟩
  · by_contra hw
    have := h.alone hw
    omega
  · rw [List.length_erase_of_mem ht]
    omega

/-- The writer is the one that is inside. -/
theorem Kept.mem_writer (h : L.Kept log) (ht : t ∈ inside .writer log) :
    L.writer = some t ∧ L.readers = 0 := by
  rw [h.writer, Option.mem_toList] at ht
  exact ⟨ht, h.alone (by simp [ht])⟩

/-- **The first of the writers that wait is let in.** -/
theorem Orderly.handed (h : L.Orderly log) (hq : L.wwaiting = w :: ws)
    (hr : L.writer = none ∨ L.rwaiting = []) (n : ℤ) (t : TaskId) (m : Mode) :
    Orderly ⟨n, some w, L.rwaiting, ws⟩ (log ++ [.leaves t m, .granted w .writer]) := by
  have hadm : ∀ post : List (Event TaskId Mode), admitted (post ++ [.leaves t m,
      .granted w .writer]) = admitted post ++ [(w, .writer)] := fun post => by
    rw [admitted_append]
    rfl
  refine ⟨?_, fun u hu => ?_, fun k u hk => ?_⟩
  · have hnd := h.nodup
    rw [hq] at hnd
    grind
  · obtain ⟨pre, post, hs, hp⟩ := h.reader u hu
    refine ⟨pre, _, hs.append (by simp), .inr ⟨w, rfl, ?_⟩⟩
    rcases hr with hr | hr
    · rcases hp with hp | ⟨v, hv, -⟩
      · rw [hadm, hp, List.nil_append]
      · rw [hr] at hv
        cases hv
    · exact absurd (hr ▸ hu) List.not_mem_nil
  · obtain ⟨pre, post, hs, he, htake, hc⟩ := h.writer (k + 1) u (by rw [hq]; exact hk)
    refine ⟨pre, _, hs.append (by simp), fun v m' hm => ?_, ?_, fun v => ?_⟩
    · rcases List.mem_append.1 hm with hm | hm
      · exact he v m' hm
      · simp at hm
    · rw [← htake, hq, admittedIn, hadm]
      simp [admittedIn]
    · have := hc v
      simp [admittedIn, hadm] at this ⊢
      omega

/-- Nobody is let in. -/
theorem Orderly.leaves (h : L.Orderly log) (n : ℤ) (t : TaskId) (m : Mode) :
    Orderly { L with readers := n } (log ++ [.leaves t m]) := by
  have hadm : ∀ post : List (Event TaskId Mode),
      admitted (post ++ [.leaves t m]) = admitted post := fun post => by
    rw [admitted_append]
    exact List.append_nil _
  refine ⟨h.nodup, fun u hu => ?_, fun k u hk => ?_⟩
  · obtain ⟨pre, post, hs, hp⟩ := h.reader u hu
    refine ⟨pre, _, hs.append (by simp), ?_⟩
    rwa [hadm]
  · obtain ⟨pre, post, hs, he, htake, hc⟩ := h.writer k u hk
    refine ⟨pre, _, hs.append (by simp), fun v m' hm => ?_, ?_, fun v => ?_⟩
    · rcases List.mem_append.1 hm with hm | hm
      · exact he v m' hm
      · simp at hm
    · rw [← htake, admittedIn, hadm, admittedIn]
    · rw [admittedIn, admittedIn, hadm]
      exact hc v

/-- **All readers that wait are let in.** -/
theorem Orderly.readers_in (h : L.Orderly log) (hw : L.writer = some t) (n : ℤ) :
    Orderly ⟨n, none, [], L.wwaiting⟩
      (log ++ .leaves t .writer :: L.rwaiting.map fun u => .granted u .reader) := by
  have hadm : ∀ post : List (Event TaskId Mode), admitted (post ++ .leaves t .writer ::
      L.rwaiting.map fun u => .granted u .reader) =
        admitted post ++ L.rwaiting.map fun u => (u, .reader) := fun post => by
    rw [admitted_append, ← admitted_granted]
    rfl
  refine ⟨(List.nodup_append.1 h.nodup).2.1, fun u hu => absurd hu List.not_mem_nil,
    fun k u hk => ?_⟩
  obtain ⟨pre, post, hs, he, htake, hc⟩ := h.writer k u hk
  refine ⟨pre, _, hs.append (by simp), fun v m' hm => ?_, ?_, fun v => ?_⟩
  · rcases List.mem_append.1 hm with hm | hm
    · exact he v m' hm
    · simp at hm
  · rw [← htake, admittedIn, hadm]
    simp [admittedIn, List.filter_map, Function.comp_def]
  · have hle := List.nodup_iff_count_le_one.1 (List.nodup_append.1 h.nodup).1 v
    have := hc v
    rw [hw] at this
    simp [admittedIn, hadm, List.filter_map, Function.comp_def] at this ⊢
    omega

/-- **`runlock` of a reader.** -/
theorem Kept.runlock (h : L.Kept log) (ho : L.Orderly log) (ht : t ∈ inside .reader log) :
    ∃ es, es = .leaves t .reader :: L.runlock.2.toList.map (fun u => .granted u .writer) ∧
      L.runlock.1.Kept (log ++ es) ∧ L.runlock.1.Orderly (log ++ es) := by
  obtain ⟨hw, hr⟩ := h.mem_reader ht
  refine ⟨_, rfl, ?_⟩
  rw [RWLock.runlock, handover]
  by_cases hz : L.readers - 1 = 0
  · have hnil : (inside .reader log).erase t = [] := List.eq_nil_of_length_eq_zero (by omega)
    cases hq : L.wwaiting with
    | nil =>
        have hrq := h.held hw hq
        simp only [hz, if_true, Option.toList_none, List.map_nil]
        refine ⟨⟨?_, ?_, ?_, ?_, fun hn => absurd hw hn, fun _ _ => rfl, fun _ _ => hrq⟩,
          .of_nobody hrq rfl⟩
        · simp [inside_append, Event.inside, hnil]
        · simpa [inside_append, Event.inside] using h.writer
        · simpa [waiting_append, Event.queue] using h.rwaiting
        · simpa [waiting_append, Event.queue, hq] using h.wwaiting
    | cons w ws =>
        simp only [hz, if_true, Option.toList_some, List.map_cons, List.map_nil]
        refine ⟨⟨?_, ?_, ?_, ?_, fun _ => rfl,
          fun hn => absurd hn (Option.some_ne_none w), fun hn => absurd hn (Option.some_ne_none w)⟩,
          ho.handed hq (.inl hw) 0 t .reader⟩
        · simp [inside_append, Event.inside, hnil]
        · simp [inside_append, Event.inside, h.writer, hw]
        · simpa [waiting_append, Event.queue] using h.rwaiting
        · simp [waiting_append, Event.queue, h.wwaiting, hq]
  · simp only [hz, if_false, Option.toList_none, List.map_nil]
    refine ⟨⟨?_, ?_, ?_, ?_, fun hn => absurd hw hn, fun _ h0 => absurd h0 hz, h.held⟩, ?_⟩
    · simpa [inside_append, Event.inside] using hr
    · simpa [inside_append, Event.inside] using h.writer
    · simpa [waiting_append, Event.queue] using h.rwaiting
    · simpa [waiting_append, Event.queue] using h.wwaiting
    · exact ho.leaves _ t .reader

theorem wunlock_eq (hw : L.writer = some t) (hr : L.readers = 0) : L.wunlock =
    some ((handover ⟨L.rwaiting.length, none, [], L.wwaiting⟩).1, L.rwaiting,
      (handover ⟨L.rwaiting.length, none, [], L.wwaiting⟩).2) := by
  simp [RWLock.wunlock, hw, hr, letReadersIn_eq]

/-- **`wunlock` of the writer.** -/
theorem Kept.wunlock (h : L.Kept log) (ho : L.Orderly log) (ht : t ∈ inside .writer log) :
    ∃ L' w es, L.wunlock = some (L', L.rwaiting, w) ∧
      es = .leaves t .writer :: (L.rwaiting.map (fun u => .granted u .reader) ++
        w.toList.map fun u => .granted u .writer) ∧
      L'.rwaiting = [] ∧ L.wwaiting = w.toList ++ L'.wwaiting ∧
        L'.Kept (log ++ es) ∧ L'.Orderly (log ++ es) := by
  obtain ⟨hw, hr⟩ := h.mem_writer ht
  obtain ⟨hww, hrw⟩ := handover_waiting ⟨L.rwaiting.length, none, [], L.wwaiting⟩
  have hin : inside .reader log = [] := List.eq_nil_of_length_eq_zero (by have := h.readers; omega)
  have hout : (inside .writer log).erase t = [] := by simp [h.writer, hw]
  refine ⟨_, _, _, wunlock_eq hw hr, rfl, hrw, hww, ?_⟩
  rw [handover]
  by_cases hz : (L.rwaiting.length : ℤ) = 0
  · have hrq : L.rwaiting = [] := List.eq_nil_of_length_eq_zero (by omega)
    cases hq : L.wwaiting with
    | nil =>
        simp only [hrq, List.length_nil, Int.natCast_zero, if_true, Option.toList_none,
          List.map_nil, List.append_nil]
        refine ⟨⟨?_, ?_, ?_, ?_, fun _ => rfl, fun _ _ => rfl, fun _ _ => rfl⟩,
          .of_nobody rfl rfl⟩
        · simp [inside_append, Event.inside, hin]
        · simp [inside_append, Event.inside, hout]
        · simpa [waiting_append, Event.queue, hrq] using h.rwaiting
        · simpa [waiting_append, Event.queue, hq] using h.wwaiting
    | cons w ws =>
        have hand := ho.handed hq (.inr hrq) 0 t .writer
        simp only [hrq, List.length_nil, Int.natCast_zero, if_true, Option.toList_some,
          List.map_cons, List.map_nil, List.nil_append] at hand ⊢
        refine ⟨⟨?_, ?_, ?_, ?_, fun _ => rfl, fun hn => absurd hn (Option.some_ne_none w),
          fun hn => absurd hn (Option.some_ne_none w)⟩, hand⟩
        · simp [inside_append, Event.inside, hin]
        · simp [inside_append, Event.inside, hout]
        · simpa [waiting_append, Event.queue, hrq] using h.rwaiting
        · simp [waiting_append, Event.queue, h.wwaiting, hq]
  · simp only [hz, if_false, Option.toList_none, List.map_nil, List.append_nil]
    refine ⟨⟨?_, ?_, ?_, ?_, fun hn => absurd rfl hn, fun _ h0 => absurd h0 hz,
      fun _ _ => rfl⟩, ho.readers_in hw _⟩
    · simp [inside_append, Event.inside, hin, foldl_inside_granted]
    · simp [inside_append, Event.inside, hout, foldl_inside_granted_of_ne]
    · have := foldl_queue_granted (m := Mode.reader) [] L.rwaiting
      simpa [waiting_append, Event.queue, h.rwaiting] using this
    · simpa [waiting_append, Event.queue, foldl_queue_granted_of_ne] using h.wwaiting

end RWLock

end Libtask

end VmwareProto
