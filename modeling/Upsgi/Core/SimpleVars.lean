import Upsgi.Core.PacketGrammar

/-! # The second variable loop

    `upsgi_simple_parse_vars` (`core/protocol.c`) reads a packet whose variables the protocol has
    used already: the loop of `upsgi_parse_vars` without the hooks.  One more thing is different.
    When only one or two bytes are left, the first check of a round fails, and there is no `else`
    branch: the next round begins at the same place.
-/

namespace Upsgi

open Framing List

/-- The loop, for `fuel` rounds: `none` if it is still running, else the request, or `none` inside
    for the return value -1. -/
def upsgi_simple_parse_vars (cfg : VarsConfig) :
    Nat → WsgiRequest → Bytes → Option (Option WsgiRequest)
  | 0, _, _ => none
  | _ + 1, req, [] => some (some req)
  | fuel + 1, req, b :: buf =>
      if (b :: buf).length ≤ 2 then upsgi_simple_parse_vars cfg fuel req (b :: buf)
      else
        match cutVar (b :: buf) with
        | .bad => some none
        | .skip rest => upsgi_simple_parse_vars cfg fuel req rest
        | .var e rest =>
            match storeVar cfg noHooks req e with
            | some req => upsgi_simple_parse_vars cfg fuel req rest
            | none => some none

/-- A round that goes on with another request and the bytes behind. -/
inductive VarRound (cfg : VarsConfig) : WsgiRequest → Bytes → WsgiRequest → Bytes → Prop
  | skip {req : WsgiRequest} {buf rest : Bytes} (hcut : cutVar buf = .skip rest) :
      VarRound cfg req buf req rest
  | var {req req' : WsgiRequest} {buf rest : Bytes} {e : Pair} (hcut : cutVar buf = .var e rest)
      (hstore : storeVar cfg noHooks req e = some req') : VarRound cfg req buf req' rest

inductive VarRounds (cfg : VarsConfig) : WsgiRequest → Bytes → WsgiRequest → Bytes → Prop
  | refl (req : WsgiRequest) (buf : Bytes) : VarRounds cfg req buf req buf
  | step {req req' req'' : WsgiRequest} {buf rest rest' : Bytes}
      (hround : VarRound cfg req buf req' rest) (h : VarRounds cfg req' rest req'' rest') :
      VarRounds cfg req buf req'' rest'

/-- The loop never comes to one or two last bytes. -/
def NoTrailing (cfg : VarsConfig) (req : WsgiRequest) (buf : Bytes) : Prop :=
  ∀ req' rest, VarRounds cfg req buf req' rest → rest = [] ∨ 2 < rest.length

/-- Entries of the table at one place.  The hook of `UPSGI_SETENV` writes into the packet. -/
def SameSlot (x y : Bytes) : Prop :=
  x = y ∨ x = (upsgi_setenv {} y).2

def SameTable (r r' : WsgiRequest) : Prop :=
  r.var_cnt = r'.var_cnt ∧ Forall₂ SameSlot r.hvec r'.hvec

variable {cfg : VarsConfig} {req req' r r' : WsgiRequest} {buf rest : Bytes}

/-! ### Termination -/

theorem cutVar_short (h : buf.length ≤ 2) : cutVar buf = .bad := by
  match buf, h with
  | [], _ | [_], _ | [_, _], _ => rfl

theorem VarRound.run (h : VarRound cfg req buf req' rest) (fuel : Nat) :
    upsgi_simple_parse_vars cfg (fuel + 1) req buf = upsgi_simple_parse_vars cfg fuel req' rest := by
  cases buf with
  | nil => cases h <;> contradiction
  | cons b buf =>
    rw [upsgi_simple_parse_vars]
    cases h with
    | skip hcut =>
      rw [if_neg fun hshort => Cut.noConfusion (hcut.symm.trans (cutVar_short hshort)), hcut]
    | var hcut hstore =>
      rw [if_neg fun hshort => Cut.noConfusion (hcut.symm.trans (cutVar_short hshort)), hcut]
      simp only [hstore]

theorem VarRounds.stuck (h : VarRounds cfg req buf req' rest) (hne : rest ≠ [])
    (hshort : rest.length ≤ 2) (fuel : Nat) :
    upsgi_simple_parse_vars cfg fuel req buf = none := by
  induction fuel generalizing req buf with
  | zero => rfl
  | succ fuel ih =>
    cases h with
    | refl =>
      obtain ⟨b, bytes, rfl⟩ := exists_cons_of_ne_nil hne
      rw [upsgi_simple_parse_vars, if_pos hshort, ih (.refl _ _)]
    | step hround h => rw [hround.run, ih h]

theorem NoTrailing.ends (h : NoTrailing cfg req buf) (fuel : Nat) (hfuel : buf.length < fuel) :
    upsgi_simple_parse_vars cfg fuel req buf ≠ none := by
  induction fuel generalizing req buf with
  | zero => nomatch hfuel
  | succ fuel ih =>
    have hnext {req' rest} (hround : VarRound cfg req buf req' rest) (hless : rest.length < fuel) :
        upsgi_simple_parse_vars cfg (fuel + 1) req buf ≠ none := by
      rw [hround.run]
      exact ih (fun req'' rest' hrounds => h req'' rest' (.step hround hrounds)) hless
    rcases h req buf (.refl _ _) with rfl | hlong
    · exact Option.some_ne_none _
    cases hcut : cutVar buf with
    | skip rest =>
      have hless := cutVar_skip hcut
      exact hnext (.skip hcut) (by omega)
    | bad =>
      obtain ⟨b, bytes, rfl⟩ := exists_cons_of_length_pos (Nat.zero_lt_of_lt hlong)
      rw [upsgi_simple_parse_vars, if_neg (Nat.not_le.mpr hlong), hcut]
      exact Option.some_ne_none _
    | var e rest =>
      have hless := (cutVar_var hcut).2.2
      cases hstore : storeVar cfg noHooks req e with
      | some req₁ => exact hnext (.var hcut hstore) (by omega)
      | none =>
        obtain ⟨b, bytes, rfl⟩ := exists_cons_of_length_pos (Nat.zero_lt_of_lt hlong)
        rw [upsgi_simple_parse_vars, if_neg (Nat.not_le.mpr hlong), hcut]
        simp [hstore]

/-! ### The same table -/

theorem setVec_sameSlot {a b : List Bytes} {x y : Bytes} (h : Forall₂ SameSlot a b)
    (hxy : SameSlot x y) (i : Nat) : Forall₂ SameSlot (setVec a i x) (setVec b i y) := by
  unfold setVec
  rw [h.length_eq]
  split
  · induction h generalizing i with
    | nil => exact .nil
    | cons hhead htail ih =>
      cases i with
      | zero => exact .cons hxy htail
      | succ i => exact .cons hhead (ih i (Nat.lt_of_succ_lt_succ ‹_›))
  · exact rel_append h (.cons hxy .nil)

theorem SameTable.store {x y : Bytes} (h : SameTable r r') (hxy : SameSlot x y) :
    SameTable { r with hvec := setVec r.hvec r.var_cnt x }
      { r' with hvec := setVec r'.hvec r'.var_cnt y } :=
  ⟨h.1, h.1 ▸ setVec_sameSlot h.2 hxy r.var_cnt⟩

theorem SameTable.next (h : SameTable r r') (hnext : nextVar cfg r = some req) :
    ∃ req', nextVar cfg r' = some req' ∧ SameTable req req' := by
  unfold nextVar at hnext
  rw [h.1] at hnext
  split at hnext
  · next hroom =>
    cases hnext
    exact ⟨_, if_pos hroom, rfl, h.2⟩
  · cases hnext

theorem SameTable.storeVar {e : Pair} (h : SameTable r r')
    (hstore : storeVar cfg (upsgi_proto_hooks_setup cfg) r e = some req) :
    ∃ req', Upsgi.storeVar cfg noHooks r' e = some req' ∧ SameTable req req' := by
  unfold Upsgi.storeVar at hstore ⊢
  simp only [Option.bind_eq_bind, Option.bind_eq_some_iff, runHook_noHooks, Option.bind_some]
    at hstore ⊢
  obtain ⟨⟨hooked, value⟩, hhook, keyed, hkey, hvalue⟩ := hstore
  obtain ⟨hvec, hcnt, rfl⟩ := runHook_leavesTable cfg _ e hooked value hhook
  have hsame := h.store (x := e.1) (y := e.1) (.inl rfl)
  unfold SameTable at hsame
  rw [← hvec, ← hcnt] at hsame
  obtain ⟨keyed', hkey', hsame⟩ := SameTable.next hsame hkey
  have hstored : SameSlot (storedValue e) e.2 := by
    unfold storedValue
    split
    · exact .inr rfl
    · exact .inl rfl
  obtain ⟨req', hvalue', hsame⟩ := (hsame.store hstored).next hvalue
  exact ⟨req', ⟨keyed', hkey', hvalue'⟩, hsame⟩

/-- Round by round, the second loop reads what the main loop reads. -/
theorem simple_parse_vars_follows (fuel : Nat) (hsame : SameTable req req')
    (h : varLoop (storeVar cfg (upsgi_proto_hooks_setup cfg)) fuel req buf = some r) :
    ∃ r', upsgi_simple_parse_vars cfg (fuel + 1) req' buf = some (some r') ∧ SameTable r r' := by
  induction fuel generalizing req req' buf with
  | zero =>
    cases buf with
    | nil =>
      cases h
      exact ⟨req', rfl, hsame⟩
    | cons b buf => cases h
  | succ fuel ih =>
    cases buf with
    | nil =>
      cases h
      exact ⟨req', rfl, hsame⟩
    | cons b buf =>
      rw [varLoop] at h
      split at h
      · cases h
      · next hcut =>
        rw [(VarRound.skip hcut).run]
        exact ih hsame h
      · next hcut =>
        split at h
        · next hstore =>
          obtain ⟨req₁, hstore', hsame'⟩ := hsame.storeVar hstore
          rw [(VarRound.var hcut hstore').run]
          exact ih hsame' h
        · cases h

end Upsgi
