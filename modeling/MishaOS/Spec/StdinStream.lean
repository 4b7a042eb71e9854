import MishaOS.ForStd.Run
import MishaOS.Native.Stdin

/-!
# Standard input as a stream

A read is right whatever is in the buffer: the unread bytes stand around the
circle from `position` on.  A write also starts at `position`, so it is right
only when nothing is unread.

## Key results

- `stdinRead_spec`, `stdinWrite_spec`: one call.
- `stdin_run_stream`: what is read is what was written, in every run in which
  each write finds the buffer empty.
-/

namespace MishaOS

open Ring

variable {fd : FileDescriptor} {l buf : List (BitVec 8)} {len : Nat} {s s' : Stdin} {op : StdinOp}

/-- The unread bytes are `l`. -/
structure Unread (fd : FileDescriptor) (l : List (BitVec 8)) : Prop where
  position : fd.position < 0x1000
  length : fd.length = l.length
  le : l.length ≤ 0x1000
  holds : Holds 0x1000 fd.context fd.position l

/-- A read takes the bytes around the circle from `position` on. -/
theorem stdinRead_eq (hpos : fd.position < 0x1000) (hlen : fd.length ≤ 0x1000) (len : Nat) :
    stdinRead fd len = (around 0x1000 fd.context fd.position (min len fd.length), { fd with
      position := (fd.position + min len fd.length) % 0x1000
      length := fd.length - min len fd.length }) := by
  -- the smaller of both, as the source computes it
  have hmin : (if len < fd.length then len else fd.length) = min len fd.length := by
    split <;> omega
  unfold stdinRead
  dsimp only
  rw [hmin]
  have hk : min len fd.length ≤ fd.length := by omega
  generalize min len fd.length = k at hk
  -- with nothing to take, nothing is written
  by_cases hk0 : k = 0
  · subst hk0
    rw [if_pos rfl, Nat.add_zero, Nat.mod_eq_of_lt hpos]
    rfl
  rw [if_neg hk0]
  have hsum : u32 (fd.position + k) = fd.position + k := u32_of_lt (by omega)
  by_cases hend : fd.position + k ≥ 0x1000
  · -- the access runs over the end: the first piece ends there
    have hfirst : sub32 0x1000 fd.position = 0x1000 - fd.position :=
      sub32_of_le (by omega) (by omega)
    have hrest : sub32 k (0x1000 - fd.position) = k - (0x1000 - fd.position) :=
      sub32_of_le (by omega) (by omega)
    have hlen : sub32 fd.length (0x1000 - fd.position) = fd.length - (0x1000 - fd.position) :=
      sub32_of_le (by omega) (by omega)
    rw [if_pos (by rw [hsum]; exact hend), hfirst, if_pos (by omega)]
    simp only [hrest, hlen, Nat.zero_add]
    have hu : u32 (k - (0x1000 - fd.position)) = k - (0x1000 - fd.position) := u32_of_lt (by omega)
    have hsub : sub32 (fd.length - (0x1000 - fd.position)) (k - (0x1000 - fd.position)) =
        fd.length - k := by
      rw [sub32_of_le (by omega) (by omega)]
      omega
    have hmod : (fd.position + k) % 0x1000 = k - (0x1000 - fd.position) := by omega
    rw [hu, hsub, hmod, around_eq_slice_append (by omega) hend (by omega)]
  -- the access stays in front of the end
  · rw [if_neg (by rw [hsum]; exact hend)]
    have hsub : sub32 fd.length k = fd.length - k := sub32_of_le (by omega) (by omega)
    simp only [hsum, hsub, List.nil_append]
    rw [Nat.mod_eq_of_lt (by omega), around_eq_slice (by omega)]

/-- A read takes bytes from the front of the unread ones. -/
theorem stdinRead_spec (h : Unread fd l) (len : Nat) :
    ∃ k, (stdinRead fd len).1 = l.take k ∧ Unread (stdinRead fd len).2 (l.drop k) := by
  obtain ⟨hpos, hlength, hle, hholds⟩ := h
  refine ⟨min len fd.length, ?_⟩
  have hk : min len fd.length ≤ l.length := by omega
  rw [stdinRead_eq hpos (by omega)]
  generalize min len fd.length = k at hk
  have hdrop : (l.drop k).length = l.length - k := List.length_drop
  have hlength' : fd.length - k = (l.drop k).length := by omega
  exact ⟨hholds.around_eq hk, Nat.mod_lt _ (by omega), hlength',
    by omega, hholds.drop (Nat.mod_mod _ _)⟩

/-- A write into an empty buffer. -/
theorem stdinWrite_spec (h : Unread fd []) (hlen : buf.length ≤ 0x1000) :
    Unread (stdinWrite fd buf) buf := by
  obtain ⟨hpos, hlength, -, -⟩ := h
  simp only [List.length_nil] at hlength
  have hmin : (if buf.length < 0x1000 then buf.length else 0x1000) = buf.length := by
    split <;> omega
  unfold stdinWrite
  dsimp only
  rw [hmin]
  -- an empty write changes nothing
  by_cases h0 : buf.length = 0
  · rw [if_pos h0]
    obtain rfl := List.length_eq_zero_iff.mp h0
    exact ⟨hpos, hlength, by simp, by simp [Holds]⟩
  rw [if_neg h0]
  have hsum : u32 (fd.position + buf.length) = fd.position + buf.length := u32_of_lt (by omega)
  have hadd : ∀ n, n ≤ 0x1000 → u32 n = n := fun n hn => u32_of_lt (by omega)
  -- over the end of the buffer in two pieces, else in one
  by_cases hend : fd.position + buf.length ≥ 0x1000
  · have hfirst : sub32 0x1000 fd.position = 0x1000 - fd.position :=
      sub32_of_le (by omega) (by omega)
    have hrest : sub32 buf.length (0x1000 - fd.position) =
        (buf.drop (0x1000 - fd.position)).length := by
      rw [sub32_of_le (by omega) (by omega), List.length_drop]
    rw [if_pos (by rw [hsum]; exact hend), hfirst, if_pos (by omega)]
    simp only [hrest, List.take_length, hlength, Nat.zero_add]
    refine ⟨hpos, ?_, hlen, Holds.blit_around hpos hlen⟩
    show u32 (u32 (0x1000 - fd.position) + (buf.drop (0x1000 - fd.position)).length) = buf.length
    rw [hadd (0x1000 - fd.position) (by omega), List.length_drop]
    have hsplit : 0x1000 - fd.position + (buf.length - (0x1000 - fd.position)) = buf.length := by
      omega
    rw [hsplit]
    exact hadd buf.length hlen
  · rw [if_neg (by rw [hsum]; exact hend)]
    simp only [List.take_length, hlength, Nat.zero_add]
    exact ⟨hpos, hadd _ hlen, hlen, Holds.blit (by omega)⟩

/-! ## Every run -/

/-- At most 4096 bytes are unread behind the call. -/
def StdinOpOk (s : Stdin) : StdinOp → Prop
  | .write buf => s.written.length - s.returned.length + buf.length ≤ 0x1000
  | .read _ => True

instance (s : Stdin) (op : StdinOp) : Decidable (StdinOpOk s op) :=
  match op with
  | .write _ => inferInstanceAs (Decidable (_ ≤ _))
  | .read _ => inferInstanceAs (Decidable True)

/-- A write finds nothing unread. -/
def StdinOpDrained (s : Stdin) : StdinOp → Prop
  | .write buf => buf ≠ [] → s.fd.length = 0
  | .read _ => True

instance (s : Stdin) (op : StdinOp) : Decidable (StdinOpDrained s op) :=
  match op with
  | .write _ => inferInstanceAs (Decidable (_ → _))
  | .read _ => inferInstanceAs (Decidable True)

/-- What the reads returned is the beginning of what was written, and `length` counts the rest. -/
def StdinCorrect (s : Stdin) : Prop :=
  s.returned <+: s.written ∧ s.fd.length = s.written.length - s.returned.length

instance (s : Stdin) : Decidable (StdinCorrect s) := inferInstanceAs (Decidable (_ ∧ _))

/-- The unread bytes are exactly those written and not yet returned. -/
def StdinInv (s : Stdin) : Prop := ∃ l, Unread s.fd l ∧ s.written = s.returned ++ l

theorem StdinInv.correct (h : StdinInv s) : StdinCorrect s := by
  obtain ⟨l, hl, hw⟩ := h
  refine ⟨⟨l, hw.symm⟩, ?_⟩
  rw [hl.length, hw, List.length_append]
  omega

theorem stdinStep_inv (h : StdinInv s) (hok : StdinOpOk s op) (hdrained : StdinOpDrained s op)
    (hs : stdinStep s op = some s') : StdinInv s' := by
  obtain ⟨l, hl, hw⟩ := h
  cases op with
  | write buf =>
    obtain rfl := Option.some.inj hs
    by_cases hbuf : buf = []
    · subst hbuf
      refine ⟨l, ?_, by simpa using hw⟩
      show Unread (stdinWrite s.fd []) l
      simpa [stdinWrite] using hl
    -- a write finds the buffer drained
    · have hnil : l = [] := List.length_eq_zero_iff.mp (hl.length.symm.trans (hdrained hbuf))
      subst hnil
      have hlen : buf.length ≤ 0x1000 := by
        have hok : s.written.length - s.returned.length + buf.length ≤ 0x1000 := hok
        omega
      refine ⟨buf, stdinWrite_spec hl hlen, ?_⟩
      show s.written ++ buf = s.returned ++ buf
      rw [hw, List.append_nil]
  | read len =>
    obtain rfl := Option.some.inj hs
    -- a read takes the first `k` bytes of what is left
    obtain ⟨k, hbytes, hrest⟩ := stdinRead_spec hl len
    refine ⟨l.drop k, hrest, ?_⟩
    show s.written = s.returned ++ (stdinRead s.fd len).1 ++ l.drop k
    rw [hbytes, List.append_assoc, List.take_append_drop, hw]

/-- In every run in which a write finds nothing unread, the reads return what was written. -/
theorem stdin_run_stream {context : Nat → BitVec 8} {ops : List StdinOp}
    (hrun : Run stdinStep (fun s op => StdinOpOk s op ∧ StdinOpDrained s op)
      ⟨⟨context, 0, 0⟩, [], []⟩ ops s) : StdinCorrect s := by
  have hinv : StdinInv s := by
    apply hrun.invariant StdinInv
    · exact fun s op s' h hok hs => stdinStep_inv h hok.1 hok.2 hs
    · exact ⟨[], ⟨Nat.zero_lt_succ _, rfl, Nat.zero_le _, by simp [Holds]⟩, rfl⟩
  exact hinv.correct

/-- Two bytes are written at once, then read one by one. -/
theorem stdin_run_stream_two_bytes :
    ∃ s, Run stdinStep (fun s op => StdinOpOk s op ∧ StdinOpDrained s op)
      ⟨⟨fun _ => 0, 0, 0⟩, [], []⟩ [.write [0x61, 0x62], .read 1, .read 1] s ∧
      s.returned = [0x61, 0x62] ∧ StdinCorrect s := by
  have hsome : (Run.exec stdinStep (fun s op => StdinOpOk s op ∧ StdinOpDrained s op)
      ⟨⟨fun _ => 0, 0, 0⟩, [], []⟩ [.write [0x61, 0x62], .read 1, .read 1]).map Stdin.returned =
      some [0x61, 0x62] := by
    decide +kernel
  obtain ⟨s, hs, hret⟩ := Option.map_eq_some_iff.mp hsome
  have hrun := Run.of_exec hs
  exact ⟨s, hrun, hret, stdin_run_stream hrun⟩

/-- Two key presses before a read: the second byte replaces the first. -/
theorem stdin_second_write_overwrites :
    ∃ s, Run stdinStep StdinOpOk ⟨⟨fun _ => 0, 0, 0⟩, [], []⟩
      [.write [0x61], .write [0x62], .read 2] s ∧ s.returned = [0x62, 0] ∧ ¬ StdinCorrect s := by
  have hsome : (Run.exec stdinStep StdinOpOk ⟨⟨fun _ => 0, 0, 0⟩, [], []⟩
      [.write [0x61], .write [0x62], .read 2]).map
        (fun s => (s.returned, decide (StdinCorrect s))) = some ([0x62, 0], false) := by
    decide +kernel
  obtain ⟨s, hs, hfacts⟩ := Option.map_eq_some_iff.mp hsome
  obtain ⟨hret, hfalse⟩ := Prod.mk.inj hfacts
  exact ⟨s, Run.of_exec hs, hret, of_decide_eq_false hfalse⟩

end MishaOS
