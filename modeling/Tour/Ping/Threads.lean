import Tour.Cache.Basic
import Tour.Route.Node

/-!
# The list of ping threads

`destroy_pingt` of `ping.c`: three loops over the list of ping threads, which is the list of its
elements with their addresses, newest first. What `pthread_cancel` and `pthread_join` return is an
argument, by the number of the call. The calls are recorded in order, so that `CleanedUp` can say
what a clean shutdown is; the code brings it about exactly when no join fails
(`destroyPingt_cleans_up_iff`).
-/

namespace Tour

open Lib

/-- `struct pingt` without its links. -/
structure Pingt where
  tgtip : InAddr
  tid : UInt64
deriving DecidableEq

/-- The calls of `destroy_pingt`, with what the first two return. -/
inductive ThreadCall
  | cancel (tid : UInt64) (err : Int)
  | join (tid : UInt64) (err : Int)
  | free (a : Addr)
deriving DecidableEq

/-- The first loop. -/
def cancelLoop (cancelErr : Nat → Int) : Nat → List (Addr × Pingt) → List ThreadCall
  | _, [] => []
  | i, cur :: rest => .cancel cur.2.tid (cancelErr i) :: cancelLoop cancelErr (i + 1) rest

/-- The second loop, from `status` on. A failed join stores 1 in `status`, which is what it holds
already. -/
def joinLoop (joinErr : Nat → Int) : Nat → Int → List (Addr × Pingt) → Int × List ThreadCall
  | _, status, [] => (status, [])
  | i, status, cur :: rest =>
    let status := if joinErr i ≠ 0 then 1 else status
    let (status, calls) := joinLoop joinErr (i + 1) status rest
    (status, .join cur.2.tid (joinErr i) :: calls)

/-- The third loop: what is left of the list, and the calls. -/
def freeLoop : List (Addr × Pingt) → List (Addr × Pingt) × List ThreadCall
  | [] => ([], [])
  | cur :: rest =>
    let (head, calls) := freeLoop rest
    (head, .free cur.1 :: calls)

/-- What `destroy_pingt` returns, leaves and did. -/
structure DestroyResult where
  ret : Int
  head : List (Addr × Pingt)
  calls : List ThreadCall

/-- `destroy_pingt(head)`. -/
def destroyPingt (cancelErr joinErr : Nat → Int) (head : List (Addr × Pingt)) : DestroyResult :=
  let cancels := cancelLoop cancelErr 0 head
  let (status, joins) := joinLoop joinErr 0 1 head
  let (head, frees) := freeLoop head
  ⟨status, head, cancels ++ joins ++ frees⟩

/-! ## A clean shutdown -/

namespace ThreadCall

def cancelled : ThreadCall → Option UInt64
  | .cancel tid _ => some tid
  | _ => none

def joined : ThreadCall → Option UInt64
  | .join tid _ => some tid
  | _ => none

def freed : ThreadCall → Option Addr
  | .free a => some a
  | _ => none

end ThreadCall

/-- Whether a join of the `n` threads of a list fails. -/
def JoinFails (joinErr : Nat → Int) (n : Nat) : Prop := ∃ i < n, joinErr i ≠ 0

instance (joinErr : Nat → Int) (n : Nat) : Decidable (JoinFails joinErr n) :=
  inferInstanceAs (Decidable (∃ i < n, joinErr i ≠ 0))

/-- Every thread is cancelled once, before any join; every thread is joined once; the list is empty
and every element was freed once; and the returned value is 0 if a join failed and 1 otherwise. -/
structure CleanedUp (joinErr : Nat → Int) (threads : List (Addr × Pingt)) (r : DestroyResult) :
    Prop where
  cancels : r.calls.filterMap ThreadCall.cancelled = threads.map fun cur => cur.2.tid
  joins : r.calls.filterMap ThreadCall.joined = threads.map fun cur => cur.2.tid
  order : ∃ before after, r.calls = before ++ after ∧
    before.filterMap ThreadCall.joined = [] ∧ after.filterMap ThreadCall.cancelled = []
  frees : r.calls.filterMap ThreadCall.freed = addrs threads
  empty : r.head = []
  ret : r.ret = if JoinFails joinErr threads.length then 0 else 1

/-! ## The loops -/

variable {cancelErr joinErr : Nat → Int}

section Loops

variable (i : Nat) (status : Int) (threads : List (Addr × Pingt))

theorem cancelLoop_calls :
    (cancelLoop cancelErr i threads).filterMap ThreadCall.cancelled =
        threads.map (fun cur => cur.2.tid) ∧
      (cancelLoop cancelErr i threads).filterMap ThreadCall.joined = [] ∧
      (cancelLoop cancelErr i threads).filterMap ThreadCall.freed = [] := by
  induction threads generalizing i with
  | nil => exact ⟨rfl, rfl, rfl⟩
  | cons cur rest ih =>
    obtain ⟨hcancel, hjoin, hfree⟩ := ih (i + 1)
    refine ⟨?_, hjoin, hfree⟩
    rw [List.map_cons, ← hcancel]
    rfl

theorem joinLoop_calls :
    (joinLoop joinErr i status threads).2.filterMap ThreadCall.cancelled = [] ∧
      (joinLoop joinErr i status threads).2.filterMap ThreadCall.joined =
        threads.map (fun cur => cur.2.tid) ∧
      (joinLoop joinErr i status threads).2.filterMap ThreadCall.freed = [] := by
  induction threads generalizing i status with
  | nil => exact ⟨rfl, rfl, rfl⟩
  | cons cur rest ih =>
    obtain ⟨hcancel, hjoin, hfree⟩ := ih (i + 1) (if joinErr i ≠ 0 then 1 else status)
    refine ⟨hcancel, ?_, hfree⟩
    rw [List.map_cons, ← hjoin]
    rfl

/-- No failure reaches the status. -/
theorem joinLoop_status : (joinLoop joinErr i 1 threads).1 = 1 := by
  induction threads generalizing i with
  | nil => rfl
  | cons cur rest ih =>
    have hstatus : (if joinErr i ≠ 0 then 1 else 1 : Int) = 1 := ite_self 1
    rw [joinLoop, hstatus]
    exact ih (i + 1)

theorem freeLoop_calls :
    (freeLoop threads).1 = [] ∧ (freeLoop threads).2.filterMap ThreadCall.cancelled = [] ∧
      (freeLoop threads).2.filterMap ThreadCall.joined = [] ∧
      (freeLoop threads).2.filterMap ThreadCall.freed = addrs threads := by
  induction threads with
  | nil => exact ⟨rfl, rfl, rfl, rfl⟩
  | cons cur rest ih =>
    obtain ⟨hempty, hcancel, hjoin, hfree⟩ := ih
    refine ⟨hempty, hcancel, hjoin, ?_⟩
    rw [addrs_cons, ← hfree]
    rfl

end Loops

/-! ## `destroy_pingt` -/

theorem destroyPingt_ret (threads : List (Addr × Pingt)) :
    (destroyPingt cancelErr joinErr threads).ret = 1 :=
  joinLoop_status 0 threads

/-- The list is what a process that exited has left of it. -/
theorem destroyPingt_exit (node : TourNode) (threads : List (Addr × Pingt)) :
    (destroyPingt cancelErr joinErr threads).head.map (fun cur => cur.2.tgtip) = node.exit.pings := by
  have hempty : (destroyPingt cancelErr joinErr threads).head = [] := (freeLoop_calls threads).1
  rw [hempty]
  rfl

/-- **`destroy_pingt` cleans up** exactly when no join fails: it makes all the calls in order
whatever they return, but it returns 1 in every case. -/
theorem destroyPingt_cleans_up_iff (cancelErr joinErr : Nat → Int)
    (threads : List (Addr × Pingt)) :
    CleanedUp joinErr threads (destroyPingt cancelErr joinErr threads) ↔
      ∀ i < threads.length, joinErr i = 0 := by
  have hret := @destroyPingt_ret cancelErr joinErr threads
  constructor
  · intro h i hi
    have hiff := h.ret
    rw [hret] at hiff
    by_contra hne
    rw [if_pos ⟨i, hi, hne⟩] at hiff
    exact absurd hiff (by decide)
  · intro h
    obtain ⟨hcc, hcj, hcf⟩ := @cancelLoop_calls cancelErr 0 threads
    obtain ⟨hjc, hjj, hjf⟩ := @joinLoop_calls joinErr 0 1 threads
    obtain ⟨hempty, hfc, hfj, hff⟩ := freeLoop_calls threads
    have hnone : ¬JoinFails joinErr threads.length := fun ⟨i, hi, hne⟩ => hne (h i hi)
    have hcalls : (destroyPingt cancelErr joinErr threads).calls =
        cancelLoop cancelErr 0 threads ++ (joinLoop joinErr 0 1 threads).2 ++
          (freeLoop threads).2 := rfl
    refine ⟨?_, ?_, ⟨cancelLoop cancelErr 0 threads,
      (joinLoop joinErr 0 1 threads).2 ++ (freeLoop threads).2, ?_, hcj, ?_⟩, ?_, hempty, ?_⟩
    · rw [hcalls, List.filterMap_append, List.filterMap_append, hcc, hjc, hfc, List.append_nil,
        List.append_nil]
    · rw [hcalls, List.filterMap_append, List.filterMap_append, hcj, hjj, hfj, List.append_nil,
        List.nil_append]
    · rw [hcalls, List.append_assoc]
    · rw [List.filterMap_append, hjc, hfc, List.append_nil]
    · rw [hcalls, List.filterMap_append, List.filterMap_append, hcf, hjf, hff, List.nil_append,
        List.nil_append]
    · rw [hret, if_neg hnone]

/-- One thread, whose join fails. -/
theorem destroyPingt_hides_failure :
    ¬∀ (cancelErr joinErr : Nat → Int) (threads : List (Addr × Pingt)),
      CleanedUp joinErr threads (destroyPingt cancelErr joinErr threads) := by
  intro h
  have hret := (h (fun _ => 0) (fun _ => 35) [(100, ⟨.zero 4, 1⟩)]).ret
  exact absurd hret (by decide)

end Tour
