import Mathlib.Data.List.Nodup
import RpcLoop.Foundation.CInt
import RpcLoop.Foundation.Residues
import RpcLoop.Pool.Pool

/-! The subscripts of `get_client_index`. They are remainders of a counter that
wraps, and C's remainder of a negative counter is negative. -/

namespace RpcLoop

open Foundation

namespace ClientLoopPool

variable {κ : Type}

/-- `(select_index++)%cur_client_index`. -/
def subscript (s : ClientLoopPool κ) : Int32 := s.selectIndex % s.curClientIndex

def advance (s : ClientLoopPool κ) : ClientLoopPool κ :=
  { s with selectIndex := s.selectIndex + 1 }

/-- What a number of probes leaves of the counter. -/
def advanceBy (s : ClientLoopPool κ) : Nat → ClientLoopPool κ
  | 0 => s
  | probes + 1 => (s.advanceBy probes).advance

/-- The subscripts of successive probes. -/
def subscripts (s : ClientLoopPool κ) (probes : Nat) : List Int32 :=
  (List.range probes).map fun probe => (s.advanceBy probe).subscript

/-- As many successive probes as there are clients stay in the list and visit
each client exactly once. -/
structure RoundRobin (s : ClientLoopPool κ) : Prop where
  inside : ∀ index ∈ s.subscripts s.clientList.length,
    0 ≤ index.toInt ∧ index.toInt < s.clientList.length
  once : ∀ position < s.clientList.length,
    (s.subscripts s.clientList.length).count (Int32.ofNat position) = 1

variable {ops : ClientOps κ} {s : ClientLoopPool κ} {probe probes : Nat} {size : Nat}

/-- A probe takes its subscript, advances the counter, and asks the client there. -/
theorem probe_eq (ops : ClientOps κ) (s : ClientLoopPool κ) :
    s.probe ops = do
      let c ← s.advance.clientAt s.subscript
      let (answer, client) ← ops.isOpen c.client
      return (s.subscript, answer, s.advance.setClient s.subscript client) := rfl

@[simp] theorem curClientIndex_advanceBy (s : ClientLoopPool κ) (probes : Nat) :
    (s.advanceBy probes).curClientIndex = s.curClientIndex := by
  induction probes with
  | zero => rfl
  | succ probes ih => exact ih

@[simp] theorem clientList_advanceBy (s : ClientLoopPool κ) (probes : Nat) :
    (s.advanceBy probes).clientList = s.clientList := by
  induction probes with
  | zero => rfl
  | succ probes ih => exact ih

theorem selectIndex_advanceBy (s : ClientLoopPool κ) (probes : Nat) :
    (s.advanceBy probes).selectIndex = s.selectIndex + Int32.ofNat probes := by
  induction probes with
  | zero => simp [advanceBy]
  | succ probes ih =>
    calc (s.advanceBy probes).selectIndex + 1
        = s.selectIndex + Int32.ofNat probes + 1 := by rw [ih]
      _ = s.selectIndex + (Int32.ofNat probes + Int32.ofNat 1) := Int32.add_assoc _ _ _
      _ = s.selectIndex + Int32.ofNat (probes + 1) := by rw [Int32.ofNat_add]

theorem counter_of_near (near : probe ≤ 2 ^ 31) :
    (s.advanceBy probe).selectIndex.toInt =
      if s.selectIndex.toInt + probe < 2 ^ 31 then s.selectIndex.toInt + probe
      else s.selectIndex.toInt + probe - 2 ^ 32 := by
  have low := s.selectIndex.le_toInt
  have high := s.selectIndex.toInt_lt
  rw [selectIndex_advanceBy, CInt.toInt_counter, Int.bmod_def]
  split <;> split <;> omega

theorem toInt_subscript (counted : s.curClientIndex.toInt = size) :
    s.subscript.toInt = s.selectIndex.toInt.tmod size := by
  rw [subscript, Int32.toInt_mod, counted]

/-- A subscript is in the list unless the counter is negative and no multiple of the size. -/
theorem subscript_inside_iff (counted : s.curClientIndex.toInt = size) (positive : 0 < size) :
    (0 ≤ s.subscript.toInt ∧ s.subscript.toInt < size) ↔
      0 ≤ s.selectIndex.toInt ∨ (size : Int) ∣ s.selectIndex.toInt := by
  rw [toInt_subscript counted]
  constructor
  · intro inside
    by_cases nonneg : 0 ≤ s.selectIndex.toInt
    · exact .inl nonneg
    · right
      have flipped : (-s.selectIndex.toInt).tmod size = -s.selectIndex.toInt.tmod size :=
        Int.neg_tmod _ _
      have mirrored := Int.tmod_nonneg (a := -s.selectIndex.toInt) size (by omega)
      exact Int.dvd_of_tmod_eq_zero (by omega)
  · rintro (nonneg | divides)
    · exact ⟨Int.tmod_nonneg _ nonneg, Int.tmod_lt_of_pos _ (by omega)⟩
    · rw [Int.tmod_eq_zero_of_dvd divides]
      omega

private theorem subscript_eq_residue (counted : s.curClientIndex.toInt = size)
    (small : size < 2 ^ 31)
    (inside : probe < size)
    (steady : s.selectIndex.toInt + probe < 2 ^ 31 ∧ 0 ≤ s.selectIndex.toInt ∨
      (size : Int) ∣ s.selectIndex.toInt + probe ∧ (size : Int) ∣ 2 ^ 32) :
    (s.advanceBy probe).subscript.toInt = (s.selectIndex.toInt + probe) % size := by
  have near : probe ≤ 2 ^ 31 := by omega
  have counter := counter_of_near (s := s) near
  have counts : (s.advanceBy probe).curClientIndex.toInt = size := by simpa using counted
  rw [toInt_subscript counts, counter]
  rcases steady with ⟨below, nonneg⟩ | ⟨divides, wraps⟩
  · rw [if_pos below]
    exact Int.tmod_eq_emod_of_nonneg (by omega)
  · rw [Int.emod_eq_zero_of_dvd divides]
    split
    · exact Int.tmod_eq_zero_of_dvd divides
    · exact Int.tmod_eq_zero_of_dvd (Int.dvd_sub divides wraps)

private theorem roundRobin_of_residues (small : s.clientList.length < 2 ^ 31)
    (residues : ∀ probe < s.clientList.length, (s.advanceBy probe).subscript.toInt =
      (s.selectIndex.toInt + probe) % (s.clientList.length : Int)) : s.RoundRobin where
  inside := by
    intro index member
    obtain ⟨probe, before, rfl⟩ := List.mem_map.mp member
    have less := List.mem_range.mp before
    rw [residues probe less]
    exact ⟨Int.emod_nonneg _ (by omega), Int.emod_lt_of_pos _ (by omega)⟩
  once := by
    intro position less
    have held : (Int32.ofNat position).toInt = position := by
      rw [CInt.toInt_ofNat, Int.bmod_def]
      split <;> omega
    apply List.count_eq_one_of_mem
    · refine List.Nodup.map_on ?_ List.nodup_range
      intro first before second after same
      have early := List.mem_range.mp before
      have late := List.mem_range.mp after
      have equal := congrArg Int32.toInt same
      rw [residues first early, residues second late] at equal
      exact (Residues.offset_unique early equal).trans (Residues.offset_unique late rfl).symm
    · have positive : 0 < s.clientList.length := by omega
      have found := Residues.offset_lt s.selectIndex.toInt position positive
      refine List.mem_map.mpr ⟨_, List.mem_range.mpr found, ?_⟩
      rw [← Int32.toInt_inj, held, residues _ found]
      exact Residues.emod_offset positive (by omega) (by omega)

theorem not_dvd_succ (several : 1 < size) {value : Int} (divides : (size : Int) ∣ value) :
    ¬ (size : Int) ∣ value + 1 := by
  intro after
  have unit := Int.dvd_sub after divides
  have bound := Int.le_of_dvd (by omega) unit
  omega

theorem RoundRobin.allowed (round : s.RoundRobin)
    (counted : s.curClientIndex.toInt = s.clientList.length) (probe : Nat)
    (inside : probe < s.clientList.length) :
    0 ≤ (s.advanceBy probe).selectIndex.toInt ∨
      (s.clientList.length : Int) ∣ (s.advanceBy probe).selectIndex.toInt := by
  have counter : (s.advanceBy probe).curClientIndex.toInt = s.clientList.length := by
    simpa using counted
  apply (subscript_inside_iff counter (by omega)).mp
  exact round.inside _ (List.mem_map.mpr ⟨probe, List.mem_range.mpr inside, rfl⟩)

theorem RoundRobin.nonneg (round : s.RoundRobin)
    (counted : s.curClientIndex.toInt = s.clientList.length) (several : 1 < s.clientList.length) :
    0 ≤ s.selectIndex.toInt := by
  have high := s.selectIndex.toInt_lt
  have first := round.allowed counted 0 (by omega)
  have second := round.allowed counted 1 several
  rw [counter_of_near (by omega)] at first second
  by_contra negative
  have divides : (s.clientList.length : Int) ∣ s.selectIndex.toInt := by
    rcases first with impossible | divides
    · split at impossible <;> omega
    · rwa [if_pos (by omega), Int.natCast_zero, Int.add_zero] at divides
  rcases second with later | later
  · have start : s.selectIndex.toInt = -1 := by
      split at later <;> omega
    rw [start] at divides
    have bound := Int.le_of_dvd (by omega) (Int.dvd_neg.mp divides)
    omega
  · rw [if_pos (by omega)] at later
    exact not_dvd_succ several divides later

theorem RoundRobin.wraps_last (round : s.RoundRobin)
    (counted : s.curClientIndex.toInt = s.clientList.length) (several : 1 < s.clientList.length)
    (wraps : 2 ^ 31 < s.selectIndex.toInt + s.clientList.length) :
    s.clientList.length ∣ 2 ^ 31 ∧ s.selectIndex.toInt + s.clientList.length = 2 ^ 31 + 1 := by
  have nonneg := round.nonneg counted several
  have high := s.selectIndex.toInt_lt
  have bound := s.curClientIndex.toInt_lt
  obtain ⟨turn, wrapped⟩ : ∃ turn : Nat, s.selectIndex.toInt + turn = 2 ^ 31 :=
    ⟨(2 ^ 31 - s.selectIndex.toInt).toNat, by omega⟩
  have turned := round.allowed counted turn (by omega)
  rw [counter_of_near (by omega), if_neg (by omega), wrapped] at turned
  have divides : (s.clientList.length : Int) ∣ 2 ^ 31 - 2 ^ 32 := by
    rcases turned with impossible | divides
    · omega
    · exact divides
  constructor
  · have whole : (s.clientList.length : Int) ∣ ((2 ^ 31 : Nat) : Int) := Int.dvd_neg.mpr divides
    exact Int.natCast_dvd_natCast.mp whole
  · by_contra more
    have next := round.allowed counted (turn + 1) (by omega)
    have value : s.selectIndex.toInt + ((turn + 1 : Nat) : Int) - 2 ^ 32 =
        (2 ^ 31 - 2 ^ 32) + 1 := by omega
    rw [counter_of_near (by omega), if_neg (by omega), value] at next
    rcases next with impossible | later
    · omega
    · exact not_dvd_succ several divides later

/-- A round of probes goes round the list exactly when there is one client, or no
value of the counter is negative, or the last one alone is and is divisible. -/
theorem RoundRobin.iff_counter (counted : s.curClientIndex.toInt = s.clientList.length)
    (positive : 1 ≤ s.clientList.length) :
    s.RoundRobin ↔ s.clientList.length = 1 ∨
      0 ≤ s.selectIndex.toInt ∧ (s.selectIndex.toInt + s.clientList.length ≤ 2 ^ 31 ∨
        s.clientList.length ∣ 2 ^ 31 ∧
          s.selectIndex.toInt + s.clientList.length = 2 ^ 31 + 1) := by
  have bound := s.curClientIndex.toInt_lt
  constructor
  · intro round
    by_cases one : s.clientList.length = 1
    · exact .inl one
    have several : 1 < s.clientList.length := by omega
    refine .inr ⟨round.nonneg counted several, ?_⟩
    by_cases within : s.selectIndex.toInt + s.clientList.length ≤ 2 ^ 31
    · exact .inl within
    · exact .inr (round.wraps_last counted several (by omega))
  · intro steady
    apply roundRobin_of_residues (by omega)
    intro probe less
    apply subscript_eq_residue counted (by omega) less
    rcases steady with one | ⟨nonneg, within | ⟨divides, last⟩⟩
    · exact .inr (by simp [one])
    · exact .inl ⟨by omega, nonneg⟩
    · by_cases below : s.selectIndex.toInt + probe < 2 ^ 31
      · exact .inl ⟨below, nonneg⟩
      · right
        have whole : (s.clientList.length : Int) ∣ 2 ^ 31 := Int.natCast_dvd_natCast.mpr divides
        have value : s.selectIndex.toInt + probe = 2 ^ 31 := by omega
        rw [value]
        exact ⟨whole, Int.dvd_trans whole ⟨2, rfl⟩⟩

/-- After any number of probes since the counter was zero, the next round of probes
goes round the list exactly when there is one client, or the counter stays below 2^31
modulo 2^32, or it ends at 2^31 and the size divides that. -/
theorem roundRobin_iff (s : ClientLoopPool κ) (earlier : Nat) (fresh : s.selectIndex = 0)
    (counted : s.curClientIndex.toInt = s.clientList.length) (positive : 1 ≤ s.clientList.length) :
    (s.advanceBy earlier).RoundRobin ↔ s.clientList.length = 1 ∨
      earlier % 2 ^ 32 + s.clientList.length ≤ 2 ^ 31 ∨
      s.clientList.length ∣ 2 ^ 31 ∧ earlier % 2 ^ 32 + s.clientList.length = 2 ^ 31 + 1 := by
  have drawn : (s.advanceBy earlier).selectIndex.toInt = (earlier : Int).bmod (2 ^ 32) := by
    rw [selectIndex_advanceBy, fresh, Int32.zero_add, CInt.toInt_ofNat]
  have value : (s.advanceBy earlier).selectIndex.toInt =
      if earlier % 2 ^ 32 < 2 ^ 31 then ((earlier % 2 ^ 32 : Nat) : Int)
      else (earlier % 2 ^ 32 : Nat) - 2 ^ 32 := by
    rw [drawn, Int.bmod_def]
    split <;> split <;> omega
  have rounds := RoundRobin.iff_counter (s := s.advanceBy earlier) (by simpa using counted)
    (by simpa using positive)
  rw [clientList_advanceBy] at rounds
  rw [rounds, value]
  constructor
  · rintro (one | ⟨nonneg, within | ⟨divides, last⟩⟩)
    · exact .inl one
    · refine .inr (.inl ?_)
      split at within <;> split at nonneg <;> omega
    · refine .inr (.inr ⟨divides, ?_⟩)
      split at last <;> split at nonneg <;> omega
  · rintro (one | within | ⟨divides, last⟩)
    · exact .inl one
    · right
      rw [if_pos (by omega)]
      exact ⟨by omega, .inl (by omega)⟩
    · by_cases one : s.clientList.length = 1
      · exact .inl one
      · right
        rw [if_pos (by omega)]
        exact ⟨by omega, .inr ⟨divides, by omega⟩⟩

/-- A pool of three clients whose counter has not been used. -/
def threeClients : ClientLoopPool Unit where
  clientList := (List.range 3).map fun ident =>
    { ident := ident, hashKey := Int32.ofNat ident, client := () }
  curClientIndex := 3

theorem threeClients_roundRobin :
    (threeClients.advanceBy 5).RoundRobin ↔ threeClients.clientList.length = 1 ∨
      5 % 2 ^ 32 + threeClients.clientList.length ≤ 2 ^ 31 ∨
      threeClients.clientList.length ∣ 2 ^ 31 ∧
        5 % 2 ^ 32 + threeClients.clientList.length = 2 ^ 31 + 1 :=
  roundRobin_iff threeClients 5 rfl (by decide) (by decide)

/-- After 2^31 probes the counter is negative, and the next subscript is -2. -/
theorem threeClients_leaves_list : ¬ ∀ earlier, (threeClients.advanceBy earlier).RoundRobin := by
  intro claim
  obtain ⟨pool, reached⟩ : ∃ pool, threeClients.advanceBy (2 ^ 31) = pool := ⟨_, rfl⟩
  have round := claim (2 ^ 31)
  have clients := clientList_advanceBy threeClients (2 ^ 31)
  have counter := selectIndex_advanceBy threeClients (2 ^ 31)
  have counted := curClientIndex_advanceBy threeClients (2 ^ 31)
  rw [reached] at round clients counter counted
  have nonneg := (round.inside pool.subscript (by rw [clients]; exact List.mem_cons_self)).1
  rw [subscript, counter, counted] at nonneg
  revert nonneg
  decide

end ClientLoopPool

end RpcLoop
