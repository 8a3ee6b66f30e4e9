import Mathlib.Data.List.Nodup
import Tour.Lib.Machine

/-!
# Scripts performed side by side

A script is a list of items that are to be performed in order. Any number of scripts are under way
at a time: one that has items left waits, and any of those that wait may go on by one item, or be
given up. The log says of every item which script it was performed for. The scripts do not disturb
each other: what was performed for one is a prefix of it (`Inv.done`), whatever was performed in
between, and the whole of it when nothing was given up and nothing waits (`Kept.all_done`). Every
move but the beginning of a script uses up an item (`moves_le`).
-/

namespace Tour.Lib

universe u

structure Scripts (α : Type u) where
  /-- The scripts that were begun, in this order. -/
  begun : List (List α)
  /-- What was performed, with the place of its script in `begun`. -/
  log : List (Nat × α)
  /-- The scripts that wait, with the items that they have left. -/
  waiting : List (Nat × List α)

namespace Scripts

variable {α : Type u}

/-- What may happen to the scripts. -/
inductive Move (α : Type u)
  /-- A script begins with its first item. -/
  | start (script : List α)
  /-- A script is given up before its first item. -/
  | refuse (script : List α)
  /-- The script at a place among those that wait goes on. -/
  | go (i : Nat)
  /-- The script at a place among those that wait is given up. -/
  | giveUp (i : Nat)

/-- The script at `t` waits if it has items left. -/
def await (waiting : List (Nat × List α)) (t : Nat) : List α → List (Nat × List α)
  | [] => waiting
  | item :: rest => waiting ++ [(t, item :: rest)]

/-- The first of the items left of the script at `t`. -/
def perform (s : Scripts α) (t : Nat) : List α → Scripts α
  | [] => s
  | item :: rest => { s with log := s.log ++ [(t, item)], waiting := await s.waiting t rest }

/-- The script at a place among those that wait does so no more. -/
def leave (s : Scripts α) (i : Nat) : Scripts α := { s with waiting := s.waiting.eraseIdx i }

def step (s : Scripts α) : Move α → Option (Scripts α)
  | .start script =>
    some (({ s with begun := s.begun ++ [script] } : Scripts α).perform s.begun.length script)
  | .refuse script => some { s with begun := s.begun ++ [script] }
  | .go i => s.waiting[i]?.map fun w => (s.leave i).perform w.1 w.2
  | .giveUp i => s.waiting[i]?.map fun _ => s.leave i

/-- Nothing was begun. -/
def empty : Scripts α := ⟨[], [], []⟩

/-- All that scripts may do. -/
def machine (α : Type u) : Machine (Scripts α) (Move α) := ⟨empty, step⟩

/-- The items of a log that were performed for the script at `t`. -/
def itemsOf (log : List (Nat × α)) (t : Nat) : List α :=
  (log.filter fun e => e.1 == t).map Prod.snd

@[simp] theorem itemsOf_append (log log' : List (Nat × α)) (t : Nat) :
    itemsOf (log ++ log') t = itemsOf log t ++ itemsOf log' t := by
  simp [itemsOf]

@[simp] theorem itemsOf_self (t : Nat) (item : α) : itemsOf [(t, item)] t = [item] := by
  simp [itemsOf]

theorem itemsOf_ne {t t' : Nat} (h : t' ≠ t) (item : α) : itemsOf [(t', item)] t = [] := by
  simp [itemsOf, h]

/-- What is new has no items. -/
theorem itemsOf_eq_nil {log : List (Nat × α)} {n : Nat} (h : ∀ e ∈ log, e.1 < n) :
    itemsOf log n = [] := by
  rw [itemsOf, List.map_eq_nil_iff, List.filter_eq_nil_iff]
  intro e he heq
  exact Nat.lt_irrefl n (beq_iff_eq.1 heq ▸ h e he)

/-! ## The invariant -/

/-- The scripts are performed one by one and in order. -/
structure Inv (s : Scripts α) : Prop where
  known : ∀ e ∈ s.log, e.1 < s.begun.length
  done : ∀ t script, s.begun[t]? = some script → itemsOf s.log t <+: script
  left : ∀ w ∈ s.waiting, w.2 ≠ [] ∧ s.begun[w.1]? = some (itemsOf s.log w.1 ++ w.2)
  once : (s.waiting.map Prod.fst).Nodup

theorem inv_empty : (empty : Scripts α).Inv :=
  ⟨List.forall_mem_nil _, fun t script h => (by cases h), List.forall_mem_nil _, List.nodup_nil⟩

variable {s : Scripts α}

theorem mem_await {waiting : List (Nat × List α)} {t : Nat} {rest : List α} {w : Nat × List α} :
    w ∈ await waiting t rest ↔ w ∈ waiting ∨ rest ≠ [] ∧ w = (t, rest) := by
  cases rest with
  | nil => simp [await]
  | cons item rest => simp [await]

/-- A script that does not wait goes on with the first of the items that it has left. -/
theorem Inv.perform {t : Nat} {items : List α} (h : s.Inv)
    (hitems : s.begun[t]? = some (itemsOf s.log t ++ items)) (ht : t ∉ s.waiting.map Prod.fst) :
    (s.perform t items).Inv := by
  cases items with
  | nil => exact h
  | cons item rest =>
    have hlt : t < s.begun.length := (List.getElem?_eq_some_iff.1 hitems).1
    refine ⟨fun e he => ?_, fun t' script hscript => ?_, fun w hw => ?_, ?_⟩
    · rcases List.mem_append.1 he with he | he
      · exact h.known e he
      · cases List.mem_singleton.1 he
        exact hlt
    · change itemsOf (s.log ++ [(t, item)]) t' <+: script
      rw [itemsOf_append]
      change s.begun[t']? = some script at hscript
      by_cases htt : t = t'
      · subst htt
        rw [hitems] at hscript
        cases hscript
        rw [itemsOf_self]
        exact ⟨rest, by simp⟩
      · rw [itemsOf_ne htt, List.append_nil]
        exact h.done t' script hscript
    · change w.2 ≠ [] ∧ s.begun[w.1]? = some (itemsOf (s.log ++ [(t, item)]) w.1 ++ w.2)
      rw [itemsOf_append]
      rcases mem_await.1 hw with hw | ⟨hrest, rfl⟩
      · have hne : t ≠ w.1 := fun heq => ht (heq ▸ List.mem_map_of_mem hw)
        rw [itemsOf_ne hne, List.append_nil]
        exact h.left w hw
      · refine ⟨hrest, ?_⟩
        rw [hitems, itemsOf_self]
        simp
    · change ((await s.waiting t rest).map Prod.fst).Nodup
      cases rest with
      | nil => exact h.once
      | cons item' rest =>
        rw [await, List.map_append, List.nodup_append]
        refine ⟨h.once, List.nodup_singleton t, fun a ha b hb heq => ht ?_⟩
        have hb : b = t := List.mem_singleton.1 hb
        rw [← hb, ← heq]
        exact ha

theorem Inv.leave (h : s.Inv) (i : Nat) : (s.leave i).Inv :=
  ⟨h.known, h.done, fun w hw => h.left w (List.mem_of_mem_eraseIdx hw),
    h.once.sublist ((List.eraseIdx_sublist ..).map _)⟩

/-- The script that leaves is not among the others. -/
theorem Inv.not_mem_leave (h : s.Inv) {i : Nat} {w : Nat × List α} (hw : s.waiting[i]? = some w) :
    w.1 ∉ (s.leave i).waiting.map Prod.fst := by
  intro hmem
  obtain ⟨w', hw', heq⟩ := List.mem_map.1 hmem
  obtain ⟨j, hji, hj⟩ := List.mem_eraseIdx_iff_getElem?.1 hw'
  have hsame : (s.waiting.map Prod.fst)[j]? = (s.waiting.map Prod.fst)[i]? := by
    rw [List.getElem?_map, List.getElem?_map, hj, hw, Option.map_some, Option.map_some, heq]
  have hlt : j < (s.waiting.map Prod.fst).length := by
    rw [List.length_map]
    exact (List.getElem?_eq_some_iff.1 hj).1
  exact hji ((List.getElem?_inj hlt h.once).1 hsame)

/-- A script more, of which nothing was performed. -/
theorem Inv.begin (h : s.Inv) (script : List α) :
    ({ s with begun := s.begun ++ [script] } : Scripts α).Inv ∧
      itemsOf s.log s.begun.length = [] ∧ s.begun.length ∉ s.waiting.map Prod.fst := by
  have hnil : itemsOf s.log s.begun.length = [] := itemsOf_eq_nil h.known
  have hold : ∀ (t : Nat) (x : List α), s.begun[t]? = some x → (s.begun ++ [script])[t]? = some x := by
    intro t x hx
    rw [List.getElem?_append_left (List.getElem?_eq_some_iff.1 hx).1]
    exact hx
  refine ⟨⟨fun e he => ?_, fun t x hx => ?_, fun w hw => ?_, h.once⟩, hnil, fun hmem => ?_⟩
  · simp only [List.length_append, List.length_singleton]
    exact Nat.lt_succ_of_lt (h.known e he)
  · rcases Nat.lt_or_ge t s.begun.length with hlt | hge
    · rw [List.getElem?_append_left hlt] at hx
      exact h.done t x hx
    · have hlt := (List.getElem?_eq_some_iff.1 hx).1
      rw [List.length_append, List.length_singleton] at hlt
      have ht : t = s.begun.length := by omega
      rw [ht, hnil]
      exact List.nil_prefix
  · exact (h.left w hw).imp_right (hold _ _)
  · obtain ⟨w, hw, heq⟩ := List.mem_map.1 hmem
    have hlt := (List.getElem?_eq_some_iff.1 (h.left w hw).2).1
    omega

theorem Inv.step {m : Move α} {s' : Scripts α} (h : s.Inv) (hstep : s.step m = some s') :
    s'.Inv := by
  cases m with
  | start script =>
    cases hstep
    obtain ⟨hinv, hnil, hnew⟩ := h.begin script
    refine hinv.perform ?_ hnew
    rw [hnil]
    simp
  | refuse script =>
    cases hstep
    exact (h.begin script).1
  | go i =>
    obtain ⟨w, hw, rfl⟩ := Option.map_eq_some_iff.1 hstep
    exact (h.leave i).perform (h.left w (List.mem_of_getElem? hw)).2 (h.not_mem_leave hw)
  | giveUp i =>
    obtain ⟨w, -, rfl⟩ := Option.map_eq_some_iff.1 hstep
    exact h.leave i

theorem Inv.run {ms : List (Move α)} {s' : Scripts α} (h : s.Inv)
    (hrun : (machine α).run s ms = some s') : s'.Inv :=
  (Machine.Steps.of_run (P := fun _ => True) (fun _ _ => trivial) hrun).invariant
    (fun _ _ _ hinv _ hstep => hinv.step hstep) h

/-! ## When nothing is given up -/

/-- The move gives no script up. -/
def Move.Keeps : Move α → Prop
  | .start _ => True
  | .refuse _ => False
  | .go _ => True
  | .giveUp _ => False

/-- Every script waits, or all of it was performed. -/
def Kept (s : Scripts α) : Prop := ∀ t script, s.begun[t]? = some script →
  t ∈ s.waiting.map Prod.fst ∨ itemsOf s.log t = script

theorem mem_await_of_mem {waiting : List (Nat × List α)} {t t' : Nat} {rest : List α}
    (h : t ∈ waiting.map Prod.fst) : t ∈ (await waiting t' rest).map Prod.fst := by
  obtain ⟨w, hw, rfl⟩ := List.mem_map.1 h
  exact List.mem_map_of_mem (mem_await.2 (Or.inl hw))

/-- The script that goes on waits again, or it is done; the others are as before. -/
theorem kept_perform {t : Nat} {items : List α} {script : List α}
    (hkept : ∀ t' script', t' ≠ t → s.begun[t']? = some script' →
      t' ∈ s.waiting.map Prod.fst ∨ itemsOf s.log t' = script')
    (hscript : s.begun[t]? = some script) (hitems : itemsOf s.log t ++ items = script) :
    (s.perform t items).Kept := by
  intro t' script' hscript'
  cases items with
  | nil =>
    by_cases htt : t' = t
    · subst htt
      change s.begun[t']? = some script' at hscript'
      rw [hscript] at hscript'
      cases hscript'
      exact Or.inr (by rw [← hitems, List.append_nil]; rfl)
    · exact hkept t' script' htt hscript'
  | cons item rest =>
    change s.begun[t']? = some script' at hscript'
    by_cases htt : t' = t
    · subst htt
      rw [hscript] at hscript'
      cases hscript'
      cases rest with
      | nil =>
        refine Or.inr ?_
        change itemsOf (s.log ++ [(t', item)]) t' = script
        rw [itemsOf_append, itemsOf_self, hitems]
      | cons item' rest =>
        exact Or.inl (List.mem_map_of_mem (mem_await.2 (Or.inr ⟨List.cons_ne_nil _ _, rfl⟩)))
    · refine (hkept t' script' htt hscript').imp mem_await_of_mem fun h => ?_
      change itemsOf (s.log ++ [(t, item)]) t' = script'
      rw [itemsOf_append, itemsOf_ne (Ne.symm htt), List.append_nil, h]

theorem Kept.step {m : Move α} {s' : Scripts α} (hinv : s.Inv) (h : s.Kept) (hm : m.Keeps)
    (hstep : s.step m = some s') : s'.Kept := by
  cases m with
  | start script =>
    cases hstep
    refine kept_perform (fun t' script' hne hscript' => ?_) (List.getElem?_concat_length ..) ?_
    · refine h t' script' ?_
      have hlt := (List.getElem?_eq_some_iff.1 hscript').1
      rw [List.length_append, List.length_singleton] at hlt
      rw [← hscript', List.getElem?_append_left (by omega)]
    · change itemsOf s.log _ ++ _ = _
      rw [(hinv.begin script).2.1, List.nil_append]
  | refuse script => cases hm
  | go i =>
    obtain ⟨w, hw, rfl⟩ := Option.map_eq_some_iff.1 hstep
    refine kept_perform (fun t' script' hne hscript' => ?_)
      (hinv.left w (List.mem_of_getElem? hw)).2 rfl
    refine (h t' script' hscript').imp_left fun hmem => ?_
    -- another script is still among those that wait
    obtain ⟨hi, rfl⟩ := List.getElem?_eq_some_iff.1 hw
    obtain ⟨w', hw', rfl⟩ := List.mem_map.1 hmem
    refine List.mem_map_of_mem (List.mem_eraseIdx_iff_getElem.2 ?_)
    obtain ⟨j, hj, rfl⟩ := List.mem_iff_getElem.1 hw'
    exact ⟨j, hj, fun hij => hne (by subst hij; rfl), rfl⟩
  | giveUp i => cases hm

theorem Kept.run {ms : List (Move α)} {s' : Scripts α} (hinv : s.Inv) (h : s.Kept)
    (hms : ∀ m ∈ ms, m.Keeps) (hrun : (machine α).run s ms = some s') : s'.Kept :=
  ((Machine.Steps.of_run hms hrun).invariant
    (I := fun s => s.Inv ∧ s.Kept)
    (fun _ _ _ hI hm hstep => ⟨hI.1.step hstep, hI.2.step hI.1 hm hstep⟩) ⟨hinv, h⟩).2

/-- When no script waits, each was performed to its end. -/
theorem Kept.all_done (h : s.Kept) (hwait : s.waiting = []) {t : Nat} {script : List α}
    (hscript : s.begun[t]? = some script) : itemsOf s.log t = script := by
  rcases h t script hscript with hmem | hdone
  · rw [hwait] at hmem
    cases hmem
  · exact hdone

/-! ## The number of moves -/

/-- The items that the scripts that wait have left. -/
def remaining (s : Scripts α) : List α := s.waiting.flatMap Prod.snd

/-- The items that a move adds behind the first of a script. -/
def Move.adds : Move α → List α
  | .start script => script.tail
  | .refuse _ => []
  | .go _ => []
  | .giveUp _ => []

/-- The move begins no script. -/
def Move.goesOn : Move α → Bool
  | .start _ => false
  | .refuse _ => false
  | .go _ => true
  | .giveUp _ => true

/-- Each script that waits has an item left. -/
theorem Inv.length_le_remaining (h : s.Inv) : s.waiting.length ≤ s.remaining.length := by
  have hlength : ∀ l : List (Nat × List α), (∀ w ∈ l, w.2 ≠ []) →
      l.length ≤ (l.flatMap Prod.snd).length := by
    intro l hl
    induction l with
    | nil => exact Nat.le_refl 0
    | cons w l ih =>
      rw [List.forall_mem_cons] at hl
      have hpos := List.length_pos_of_ne_nil hl.1
      have hrest := ih hl.2
      rw [List.length_cons, List.flatMap_cons, List.length_append]
      omega
  exact hlength s.waiting fun w hw => (h.left w hw).1

theorem remaining_perform (t : Nat) (items : List α) :
    (s.perform t items).remaining = s.remaining ++ items.tail := by
  cases items with
  | nil => exact (List.append_nil _).symm
  | cons item rest =>
    cases rest with
    | nil => exact (List.append_nil _).symm
    | cons item' rest => simp [perform, await, remaining]

theorem remaining_leave {i : Nat} {w : Nat × List α} (hw : s.waiting[i]? = some w) :
    (s.leave i).remaining.length + w.2.length = s.remaining.length := by
  obtain ⟨hi, rfl⟩ := List.getElem?_eq_some_iff.1 hw
  have hsplit : s.remaining =
      (s.waiting.take i ++ s.waiting[i] :: s.waiting.drop (i + 1)).flatMap Prod.snd := by
    rw [List.getElem_cons_drop, List.take_append_drop, remaining]
  rw [hsplit, remaining, leave, List.eraseIdx_eq_take_drop_succ]
  simp only [List.flatMap_append, List.flatMap_cons, List.length_append]
  omega

/-- A move that begins nothing uses up an item. -/
theorem remaining_step {m : Move α} {s' : Scripts α} (hinv : s.Inv) (hstep : s.step m = some s') :
    (if m.goesOn then 1 else 0) + s'.remaining.length ≤ s.remaining.length + m.adds.length := by
  cases m with
  | start script =>
    cases hstep
    rw [remaining_perform, List.length_append]
    simp [Move.goesOn, Move.adds, remaining]
  | refuse script =>
    cases hstep
    simp [Move.goesOn, Move.adds, remaining]
  | go i =>
    obtain ⟨w, hw, rfl⟩ := Option.map_eq_some_iff.1 hstep
    have hleave := remaining_leave hw
    have hpos := List.length_pos_of_ne_nil (hinv.left w (List.mem_of_getElem? hw)).1
    rw [remaining_perform, List.length_append, List.length_tail]
    simp only [Move.goesOn, Move.adds, if_true, List.length_nil]
    omega
  | giveUp i =>
    obtain ⟨w, hw, rfl⟩ := Option.map_eq_some_iff.1 hstep
    have hleave := remaining_leave hw
    have hpos := List.length_pos_of_ne_nil (hinv.left w (List.mem_of_getElem? hw)).1
    simp only [Move.goesOn, Move.adds, if_true, List.length_nil]
    omega

/-- The moves of a run that begin nothing are no more than the items of the scripts begun. -/
theorem moves_le {ms : List (Move α)} {s' : Scripts α} (hinv : s.Inv)
    (hrun : (machine α).run s ms = some s') :
    ms.countP Move.goesOn + s'.remaining.length ≤
      s.remaining.length + (ms.flatMap Move.adds).length := by
  induction ms generalizing s with
  | nil => cases hrun; simp
  | cons m ms ih =>
    obtain ⟨t, ht, hrest⟩ := Option.bind_eq_some_iff.1 hrun
    have hstep := remaining_step hinv ht
    have hih := ih (hinv.step ht) hrest
    rw [List.countP_cons, List.flatMap_cons, List.length_append]
    omega

end Scripts

end Tour.Lib
