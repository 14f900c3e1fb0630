import Lmap.Library.Ownership
import Lmap.Encoded
import Mathlib.Tactic.Abel

/-!
What is allocated for a packet and what is freed: the bucket, and the string of its fingerprint.
-/

set_option autoImplicit false

namespace Lmap
namespace Blocks
open Ownership

structure BucketPtr where
  p : Nat
  L2 : Nat
  L3 : Nat
  L4 : Nat
  L5 : Nat
  essid : Option Nat
  fingerprint : Option Nat
  deriving DecidableEq, Repr

def dbBucketAlloc (A : Allocator) : Prog BucketPtr := do
  let p ← A.malloc
  let L2 ← A.malloc
  let L3 ← A.malloc
  let L4 ← A.malloc
  let L5 ← A.malloc
  pure ⟨p, L2, L3, L4, L5, none, none⟩

/-- What a decoder does to the string behind `BUCKET->L4->fingerprint`. -/
def decoderString (A : Allocator) (m : Memory) (fingerprint : Option Nat) (c : Chain) :
    Prog (Option Nat) :=
  match c.decoder with
  | .ip => do
    -- the pointer is not looked at before it is assigned
    if (m.byte (c.data + 9)).toNat = LN_TYPE_TCP then
      let q ← A.malloc
      pure (some q)
    else pure fingerprint
  | .tcp => do
    if m.byte (c.data + 13) &&& TH_SYN ≠ 0 then pure fingerprint
    else
      release fingerprint
      pure none
  | .arp | .dhcpc | .dhcpd | .eth | .icmp | .icmp6 | .ip6 | .udp | .wifi => pure fingerprint

/-- `SAFE_FREE(b->L5)` is commented out. -/
def dbBucketSend (b : BucketPtr) : Prog Unit := do
  release b.essid
  free b.L2
  free b.L3
  release b.fingerprint
  free b.L4

def dbBucketFree (b : BucketPtr) : Prog Unit := free b.p

def lmapDecode (A : Allocator) (m : Memory) (calls : List Chain) : Prog Nat := do
  let b ← dbBucketAlloc A
  let fingerprint ← fold (decoderString A m) b.fingerprint calls
  let b : BucketPtr := { b with fingerprint := fingerprint }
  dbBucketSend b
  dbBucketFree b
  pure b.L5

def BucketPtr.blocks (b : BucketPtr) : Multiset Nat :=
  behind b.essid + ({b.L2} + ({b.L3} + (behind b.fingerprint + ({b.L4} + ({b.p} + {b.L5})))))

variable {A : Allocator}

theorem triple_dbBucketAlloc :
    Triple 0 (dbBucketAlloc A) fun b own => own = b.blocks ∧ b.fingerprint = none := by
  refine .malloc A fun p => .malloc A fun L2 => .malloc A fun L3 => .malloc A fun L4 =>
    .malloc A fun L5 => triple_pure ⟨?_, rfl⟩
  simp only [BucketPtr.blocks, behind, zero_add, add_zero]
  abel

def stringAfter (m : Memory) (held : Bool) (d : Decoder) (p : Nat) : Bool :=
  match d with
  | .ip => if (m.byte (p + 9)).toNat = LN_TYPE_TCP then true else held
  | .tcp => if m.byte (p + 13) &&& TH_SYN ≠ 0 then held else false
  | .arp | .dhcpc | .dhcpd | .eth | .icmp | .icmp6 | .ip6 | .udp | .wifi => held

def stringsAfter (m : Memory) (calls : List Chain) (held : Bool) : Bool :=
  calls.foldl (fun held c => stringAfter m held c.decoder c.data) held

/-- The string is allocated at most once, since no two calls are of the same layer. -/
theorem triple_strings {m : Memory} {calls : List Chain}
    (hlayers : calls.Pairwise fun c c' => c.decoder.layer < c'.decoder.layer) :
    Triple 0 (fold (decoderString A m) none calls) fun fingerprint own =>
      own = behind fingerprint ∧ fingerprint.isSome = stringsAfter m calls false := by
  let I : List Chain → Option Nat → Multiset Nat → Prop := fun done fingerprint own =>
    (own = behind fingerprint ∧ fingerprint.isSome = stringsAfter m done false) ∧
      ((∀ c ∈ done, c.decoder ≠ .ip) → fingerprint = none)
  have hfold : Triple 0 (fold (decoderString A m) none calls) (I calls) := by
    refine triple_fold (fun done c todo fingerprint own hcalls hdone => ?_)
      ⟨⟨rfl, rfl⟩, fun _ => rfl⟩
    obtain ⟨⟨rfl, hheld⟩, hnone⟩ := hdone
    have hafter : stringsAfter m (done ++ [c]) false =
        stringAfter m fingerprint.isSome c.decoder c.data := by
      rw [hheld, stringsAfter, List.foldl_append]
      rfl
    have hsame : c.decoder ≠ .ip → (∀ c' ∈ done ++ [c], c'.decoder ≠ .ip) → fingerprint = none :=
      fun _ hall => hnone fun c' hc' => hall c' (List.mem_append_left _ hc')
    cases hd : c.decoder with
    | ip =>
      rw [hd] at hafter
      have hfirst : fingerprint = none := by
        refine hnone fun c' hc' hip => ?_
        rw [hcalls, List.pairwise_append] at hlayers
        have hlt := hlayers.2.2 c' hc' c List.mem_cons_self
        rw [hip, hd] at hlt
        exact absurd hlt (by decide)
      subst hfirst
      have hlast : (∀ c' ∈ done ++ [c], c'.decoder ≠ .ip) → False := fun hall =>
        hall c (List.mem_append_right _ List.mem_cons_self) hd
      simp only [decoderString, hd]
      simp only [stringAfter] at hafter
      split
      · rename_i htcp
        rw [if_pos htcp] at hafter
        refine .malloc A fun q => triple_pure ⟨⟨?_, hafter.symm⟩, fun hall => (hlast hall).elim⟩
        simp only [behind, add_zero]
      · rename_i htcp
        rw [if_neg htcp] at hafter
        exact triple_pure ⟨⟨rfl, hafter.symm⟩, fun hall => (hlast hall).elim⟩
    | tcp =>
      rw [hd] at hafter
      simp only [decoderString, hd]
      simp only [stringAfter] at hafter
      split
      · rename_i hsyn
        rw [if_pos hsyn] at hafter
        exact triple_pure ⟨⟨rfl, hafter.symm⟩, hsame (by rw [hd]; exact nofun)⟩
      · rename_i hsyn
        rw [if_neg hsyn] at hafter
        have hrelease : Triple (behind fingerprint + 0) (do
            release fingerprint
            pure none) (I (done ++ [c])) :=
          .release (triple_pure ⟨⟨rfl, hafter.symm⟩, fun _ => rfl⟩)
        exact hrelease.of_eq (add_zero _)
    | arp | dhcpc | dhcpd | eth | icmp | icmp6 | ip6 | udp | wifi =>
      rw [hd] at hafter
      simp only [decoderString, hd]
      exact triple_pure ⟨⟨rfl, hafter.symm⟩, hsame (by rw [hd]; exact nofun)⟩
  exact hfold.mono fun fingerprint own hI => hI.1

theorem triple_dbBucketSend (b : BucketPtr) :
    Triple b.blocks (dbBucketSend b) fun _ own => own = {b.p} + {b.L5} := by
  refine .release (.free (.free (.release ?_)))
  have hlast := (triple_free b.L4).frame ({b.p} + {b.L5})
  refine hlast.mono fun _ own hown => ?_
  obtain ⟨own'', rfl, rfl⟩ := hown
  exact zero_add _

/-- All that is left of a packet is the block that `L5` pointed to. -/
theorem triple_lmapDecode {m : Memory} {calls : List Chain}
    (hlayers : calls.Pairwise fun c c' => c.decoder.layer < c'.decoder.layer) :
    Triple 0 (lmapDecode A m calls) fun L5 own => own = {L5} := by
  refine triple_dbBucketAlloc.next fun b own hb => ?_
  obtain ⟨rfl, hnone⟩ := hb
  rw [hnone]
  have hrest : b.blocks = 0 + b.blocks := (zero_add _).symm
  rw [hrest]
  refine (triple_strings hlayers).bind _ fun fingerprint own hown => ?_
  obtain ⟨rfl, -⟩ := hown
  have hblocks : behind fingerprint + b.blocks =
      BucketPtr.blocks { b with fingerprint := fingerprint } := by
    simp only [BucketPtr.blocks, hnone, behind, zero_add]
    abel
  rw [hblocks]
  refine (triple_dbBucketSend _).next fun _ own hown => ?_
  subst hown
  exact .free (triple_pure rfl)

theorem call_string {e : Env} (he : e.Registered) {d : Decoder} {buf n : Nat} {w : World} {r : Ret}
    (h : d.call e buf n w = .ok r) : r.world.bucket.L4.fingerprint.isSome =
      stringAfter e.mem w.bucket.L4.fingerprint.isSome d buf := by
  cases d with
  | eth =>
    obtain ⟨_, _, _, _, -, -, -, rfl⟩ := (decodeEth_ok_iff (n := n) he).mp h
    rfl
  | wifi =>
    obtain ⟨_, _, _, _, -, -, -, -, hw, -⟩ := (decodeWifi_ok_iff he).mp h
    rw [hw]
    rfl
  | arp =>
    rw [decodeArp_L4 (n := n) h]
    rfl
  | ip =>
    obtain ⟨_, _, protocol, _, _, finger, -, hm, -, -, -, hfinger, rfl⟩ :=
      (decodeIp_ok_iff (n := n) he).mp h
    have hbyte : e.mem.byte (buf + 9) = protocol := hm.byte_eq (i := 1) rfl
    rw [stringAfter, hbyte]
    split at hfinger
    · rename_i htcp
      obtain ⟨_, _, -, rfl⟩ := hfinger
      rw [if_pos htcp]
      rfl
    · rename_i htcp
      rw [if_neg htcp, hfinger]
  | ip6 =>
    obtain ⟨_, _, _, _, _, _, -, -, -, -, rfl⟩ := (decodeIp6_ok_iff (n := n) he).mp h
    rfl
  | icmp =>
    obtain ⟨_, -, rfl⟩ := (decodeIcmp_ok_iff (n := n)).mp h
    rfl
  | icmp6 =>
    obtain ⟨_, -, rfl⟩ := (decodeIcmp6_ok_iff (n := n)).mp h
    rfl
  | tcp =>
    obtain ⟨-, hends⟩ := (decodeTcp_isOk_iff (n := n) he).mp ⟨r, h⟩
    obtain ⟨_, _, _, _, o, flags, finger, -, hm, hfinger, rfl⟩ :=
      (decodeTcp_ok_iff (n := n) he).mp h
    have ho : e.mem.byte (buf + 12) = o := hm.byte_eq (i := 0) rfl
    have hflags : e.mem.byte (buf + 13) = flags := hm.byte_eq (i := 1) rfl
    rw [stringAfter, hflags]
    split at hfinger
    · rename_i hsyn
      obtain ⟨-, hsome, hread⟩ := hends (by rw [SynAt, hflags]; exact hsyn)
      obtain ⟨f, hf⟩ := Option.isSome_iff_exists.mp hsome
      rw [optArea, offAt, ho] at hread
      rw [hf] at hfinger
      rw [if_pos hsyn, hf, tcpSyn_isSome hread hfinger]
      rfl
    · rename_i hsyn
      rw [if_neg hsyn, hfinger]
      rfl
  | udp =>
    obtain ⟨_, _, _, _, -, rfl⟩ := (decodeUdp_ok_iff (n := n) he).mp h
    rfl
  | dhcpd | dhcpc =>
    cases h
    rfl

theorem run_string {e : Env} (he : e.Registered) {n : Nat} {c : Chain} {w : World}
    (h : Loop.run (chainBody e) n c = some (.ok w)) : w.bucket.L4.fingerprint.isSome =
      stringsAfter e.mem (Loop.visits (chainBody e) n c) c.world.bucket.L4.fingerprint.isSome := by
  induction n generalizing c with
  | zero => simp [Loop.run] at h
  | succ n ih =>
    cases hb : chainBody e c with
    | again c' =>
      rw [Loop.run_again hb] at h
      obtain ⟨r, d, hcall, -, -, rfl⟩ := chainBody_again_iff.mp hb
      rw [ih h, Loop.visits_again hb, stringsAfter, stringsAfter, List.foldl_cons,
        ← call_string he hcall]
    | leave res =>
      rw [Loop.run_leave hb, Option.some.injEq] at h
      subst h
      obtain ⟨r, hcall, rfl, -⟩ := chainBody_ok_iff.mp hb
      rw [Loop.visits_leave hb, stringsAfter, List.foldl_cons, List.foldl_nil,
        ← call_string he hcall]

theorem triple_reported {h : Host} {r : Running} {pkt : Packet} {b : Bucket} {g : Globals}
    (hok : Lmap.lmapDecode h r.globals pkt = .ok (b, g)) :
    Triple 0 (fold (decoderString A pkt.mem) none (lmapCalls ROUNDS h r.globals pkt))
      fun fingerprint own =>
        own = behind fingerprint ∧ fingerprint.isSome = b.L4.fingerprint.isSome := by
  have hreport : b.L4.fingerprint.isSome =
      stringsAfter pkt.mem (lmapCalls ROUNDS h r.globals pkt) false := by
    rw [r.lmapDecode_eq] at hok
    split at hok
    · rename_i w hw
      cases hok
      rw [r.lmapCalls_eq]
      exact run_string (r.env_registered h pkt) hw
    · cases hok
    · cases hok
  rw [hreport]
  exact triple_strings (r.calls_layer h pkt ROUNDS)

end Blocks
end Lmap
