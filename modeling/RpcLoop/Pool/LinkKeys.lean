import Mathlib.Data.List.InsertIdx
import RpcLoop.Foundation.CInt
import RpcLoop.Pool.Bookkeeping

/-! Whether a link key identifies an endpoint. The key adds the port to a
polynomial hash of the address, so that the two trade off: keys collide when the
polynomials of two addresses differ, modulo 2^32, by what the ports differ. -/

namespace RpcLoop

open Foundation

/-- The decimal digits of a number. -/
def decimal (number : Nat) : List UInt8 :=
  (Nat.toDigits 10 number).map fun digit => digit.toNat.toUInt8

/-- An address in dotted-quad notation with a port. -/
structure Endpoint where
  first : Fin 256
  second : Fin 256
  third : Fin 256
  fourth : Fin 256
  port : Nat
  lowest : 1 ≤ port
  highest : port ≤ 65535
  deriving DecidableEq

namespace Endpoint

def ip (e : Endpoint) : List UInt8 :=
  decimal e.first ++ 46 :: decimal e.second ++ 46 :: decimal e.third ++ 46 :: decimal e.fourth

/-- The port as the `int` that callers pass. -/
def portNumber (e : Endpoint) : Int32 := Int32.ofNat e.port

def key (e : Endpoint) : Int32 := linkKey e.ip e.portNumber

end Endpoint

/-- The polynomial with the characters of a string as coefficients, at 131. -/
def polynomial : List UInt8 → Int
  | [] => 0
  | char :: rest => char.toInt8.toInt * 131 ^ rest.length + polynomial rest

namespace ClientLoopPool

variable {κ : Type} (ops : ClientOps κ)

/-- No link has the key of the endpoint yet. -/
structure Unlinked (s : ClientLoopPool κ) (e : Endpoint) : Prop where
  set : e.key ∉ s.linkSetPoll
  list : e.key ∉ s.keys

/-- A pool after a `write` to each of two endpoints it had no link to. -/
structure WroteBoth (s : ClientLoopPool κ) (e other : Endpoint) (final : ClientLoopPool κ) :
    Prop where
  unlinked : s.Unlinked e
  otherUnlinked : s.Unlinked other
  room : s.full = false
  writes : ∃ middle handle again data size more length, middle.full = false ∧
    s.write ops e.ip e.portNumber data size = some (some handle, middle) ∧
    middle.write ops other.ip other.portNumber more length = some (some again, final)

/-- The key of an endpoint stands for that endpoint beside another one. -/
structure Identified (e other : Endpoint) : Prop where
  distinct : e.key ≠ other.key
  links : ∀ s final, WroteBoth ops s e other final →
    final.idents = s.idents ++ [s.created, s.created + 1]
  closes : ∀ s final, WroteBoth ops s e other final →
    (final.destroy e.ip e.portNumber).idents = s.idents ++ [s.created + 1] ∧
      (final.destroy other.ip other.portNumber).idents = s.idents ++ [s.created]

variable {ops} {s next final : ClientLoopPool κ} {e other : Endpoint}

/-! ### The hash -/

private theorem bkdrHash_foldl (str : List UInt8) (hash : Int) :
    str.foldl (fun hash char => hash * 131 + char.toInt8.toInt32) (Int32.ofInt hash) =
      Int32.ofInt (hash * 131 ^ str.length + polynomial str) := by
  induction str generalizing hash with
  | nil => simp [polynomial]
  | cons char rest ih =>
    have step : Int32.ofInt hash * 131 + char.toInt8.toInt32 =
        Int32.ofInt (hash * 131 + char.toInt8.toInt) := by
      rw [Int32.ofInt_add, Int32.ofInt_mul]
      rfl
    rw [List.foldl_cons, step, ih, polynomial, List.length_cons]
    congr 1
    rw [Int.add_mul, pow_succ', Int.mul_assoc, Int.add_assoc]

private theorem bkdrHash_eq (str : List UInt8) : bkdrHash str = Int32.ofInt (polynomial str) := by
  have whole := bkdrHash_foldl str 0
  rw [Int.zero_mul, Int.zero_add] at whole
  exact whole

private theorem key_eq (e : Endpoint) : e.key = Int32.ofInt (polynomial e.ip + e.port) := by
  rw [Endpoint.key, linkKey, bkdrHash_eq, Int32.ofInt_add]
  rfl

private theorem key_eq_iff (e other : Endpoint) :
    e.key = other.key ↔
      (2 ^ 32 : Int) ∣ (polynomial e.ip + e.port) - (polynomial other.ip + other.port) := by
  rw [key_eq, key_eq, CInt.ofInt_eq_ofInt_iff]

/-! ### Links -/

private theorem write_links {ip : List UInt8} {port : Int32} {data : List Cell} {size : Int32}
    {handle : ClientHandle} (room : s.full = false) (missing : linkKey ip port ∉ s.linkSetPoll)
    (written : s.write ops ip port data size = some (some handle, next)) :
    next.keys = s.keys ++ [linkKey ip port] ∧ next.idents = s.idents ++ [s.created] ∧
      next.created = s.created + 1 ∧ next.linkSetPoll = s.linkSetPoll.insert (linkKey ip port) := by
  have same := write_sameBook written
  have linked : s.addLink ops ip port = s.addLinkLocked ops ip port := addLink_of_room room
  rcases addLinkLocked_cases ops s ip port with ⟨known, _⟩ | ⟨_, _, result⟩ |
    ⟨_, client, _, result⟩
  · exact absurd known missing
  · simp [write, linked, result] at written
  · rw [linked, result] at same
    refine ⟨?_, ?_, same.created, same.linkSetPoll⟩
    · rw [same.keys]
      simp [keys]
    · rw [same.idents]
      simp [idents]

theorem WroteBoth.records (wrote : WroteBoth ops s e other final) (distinct : e.key ≠ other.key) :
    final.keys = s.keys ++ [e.key, other.key] ∧
      final.idents = s.idents ++ [s.created, s.created + 1] := by
  obtain ⟨middle, handle, again, data, size, more, length, room, first, second⟩ := wrote.writes
  obtain ⟨keys, idents, created, set⟩ := write_links wrote.room wrote.unlinked.set first
  have missing : other.key ∉ middle.linkSetPoll := by
    rw [set, Std.TreeSet.mem_insert]
    rintro (same | member)
    · exact distinct (Std.LawfulEqCmp.compare_eq_iff_eq.mp same)
    · exact wrote.otherUnlinked.set member
  obtain ⟨later, after, _, _⟩ := write_links room missing second
  rw [keys, List.append_assoc] at later
  rw [idents, created, List.append_assoc] at after
  exact ⟨later, after⟩

private theorem destroy_idents {before after : List Int32} {ip : List UInt8} {port : Int32}
    (keys : s.keys = before ++ linkKey ip port :: after) (first : linkKey ip port ∉ before) :
    (s.destroy ip port).idents = s.idents.eraseIdx before.length := by
  have found : s.position (linkKey ip port) = some before.length := by
    have search : s.position (linkKey ip port) =
        s.keys.findIdx? (fun key => key == linkKey ip port) := by
      simp only [position, ClientLoopPool.keys, List.findIdx?_map]
      rfl
    have none : before.findIdx? (fun key => key == linkKey ip port) = none := by
      apply List.findIdx?_eq_none_iff.mpr
      intro key member
      refine beq_eq_false_iff_ne.mpr fun same => first ?_
      exact same ▸ member
    rw [search, keys, List.findIdx?_append, none]
    simp [List.findIdx?_cons]
  simp only [destroy, found, idents]
  exact (List.eraseIdx_map _ _ _).symm

private theorem identified_of_distinct (distinct : e.key ≠ other.key) : Identified ops e other where
  distinct := distinct
  links s final wrote := (wrote.records distinct).2
  closes s final wrote := by
    obtain ⟨keys, idents⟩ := wrote.records distinct
    have length : s.idents.length = s.keys.length := by simp [ClientLoopPool.idents]
    have missing : other.key ∉ s.keys ++ [e.key] := by
      intro member
      rcases List.mem_append.mp member with old | new
      · exact wrote.otherUnlinked.list old
      · exact distinct (List.mem_singleton.mp new).symm
    have last : final.keys = (s.keys ++ [e.key]) ++ [other.key] := by
      rw [keys, List.append_assoc]
      rfl
    constructor
    · rw [destroy_idents keys wrote.unlinked.list, idents, ← length]
      simp [List.eraseIdx_append]
    · rw [destroy_idents last missing, idents, List.length_append, ← length]
      simp [List.eraseIdx_append]

/-- A key identifies its endpoint beside another one unless the polynomials of
the addresses and the ports differ by opposite amounts modulo 2^32. -/
theorem identified_iff_polynomials (ops : ClientOps κ) (e other : Endpoint) :
    Identified ops e other ↔
      ¬ (2 ^ 32 : Int) ∣ (polynomial e.ip + e.port) - (polynomial other.ip + other.port) := by
  rw [← key_eq_iff]
  constructor
  · exact fun identified => identified.distinct
  · exact fun distinct => identified_of_distinct distinct

/-- 1.1.1.1:2 -/
def neighbour : Endpoint := ⟨1, 1, 1, 1, 2, by decide, by decide⟩

/-- 1.1.1.2:1 -/
def otherNeighbour : Endpoint := ⟨1, 1, 1, 2, 1, by decide, by decide⟩

/-- Neighbouring addresses with neighbouring ports share one key. -/
theorem neighbours_collide :
    ¬ (neighbour ≠ otherNeighbour →
      Identified (ClientLoop.poolOps .littleEndian fun _ => true) neighbour otherNeighbour) := by
  intro identified
  have same : neighbour.key = otherNeighbour.key := by decide +kernel
  exact (identified (by decide)).distinct same

end ClientLoopPool

end RpcLoop
