import Mathlib.Data.List.Induction
import Mathlib.Data.List.Nodup
import RpcLoop.Foundation.Machine

/-! A service that executes what it is asked to. What was asked is sent in some
order, executed in that order, each request once, and the answers are taken in
that order too. -/

namespace RpcLoop.Foundation

universe u v

/-- What was asked and what was sent, the answers of what was executed, and how many
of them were taken. -/
structure Service (ρ : Type u) (α : Type v) where
  asked : List ρ
  sent : List ρ
  answers : List α
  taken : Nat

namespace Service

inductive Event (ρ : Type u) (α : Type v) where
  | ask (request : ρ)
  | send (request : ρ)
  | execute (answer : α)
  | take

variable {ρ : Type u} {α : Type v}

def start : Service ρ α where
  asked := []
  sent := []
  answers := []
  taken := 0

open Classical in
/-- An answer to a request may depend on those executed before it. -/
noncomputable def step (right : List ρ → ρ → α → Prop) (s : Service ρ α) :
    Event ρ α → Option (Service ρ α)
  | .ask request =>
    if request ∉ s.asked then some { s with asked := s.asked ++ [request] } else none
  | .send request =>
    if request ∈ s.asked ∧ request ∉ s.sent then some { s with sent := s.sent ++ [request] }
    else none
  | .execute answer =>
    if ∃ request, s.sent[s.answers.length]? = some request ∧
        right (s.sent.take s.answers.length) request answer then
      some { s with answers := s.answers ++ [answer] }
    else none
  | .take => if s.taken < s.answers.length then some { s with taken := s.taken + 1 } else none

noncomputable def machine (right : List ρ → ρ → α → Prop) :
    Machine (Service ρ α) (Event ρ α) where
  step := step right

/-- What holds of the service in every state. -/
structure Sound (right : List ρ → ρ → α → Prop) (s : Service ρ α) : Prop where
  fresh : s.asked.Nodup
  once : s.sent.Nodup
  known : ∀ request ∈ s.sent, request ∈ s.asked
  answered : ∀ number answer, s.answers[number]? = some answer →
    ∃ request, s.sent[number]? = some request ∧ right (s.sent.take number) request answer
  taken : s.taken ≤ s.answers.length

/-- The service has gone on from one state to another. -/
structure Grown (s next : Service ρ α) : Prop where
  asked : s.asked <+: next.asked
  sent : s.sent <+: next.sent
  answers : s.answers <+: next.answers
  taken : s.taken ≤ next.taken

variable {right : List ρ → ρ → α → Prop} {s next : Service ρ α}

private theorem reaches_asked {more : List ρ} (fresh : (s.asked ++ more).Nodup) :
    (machine right).Reaches s { s with asked := s.asked ++ more } := by
  induction more using List.reverseRecOn with
  | nil =>
    rw [List.append_nil]
    exact .refl s
  | append_singleton early request ih =>
    rw [← List.append_assoc] at fresh ⊢
    have new : request ∉ s.asked ++ early := fun member =>
      List.disjoint_of_nodup_append fresh member (List.mem_singleton_self request)
    have taken : (machine right).step { s with asked := s.asked ++ early } (.ask request) =
        some { s with asked := s.asked ++ early ++ [request] } := if_pos new
    exact (ih (List.Nodup.of_append_left fresh)).next taken

private theorem reaches_sent {more : List ρ} (once : (s.sent ++ more).Nodup)
    (known : ∀ request ∈ more, request ∈ s.asked) :
    (machine right).Reaches s { s with sent := s.sent ++ more } := by
  induction more using List.reverseRecOn with
  | nil =>
    rw [List.append_nil]
    exact .refl s
  | append_singleton early request ih =>
    rw [← List.append_assoc] at once ⊢
    have asked := known request (List.mem_append_right _ (List.mem_singleton_self request))
    have new : request ∉ s.sent ++ early := fun member =>
      List.disjoint_of_nodup_append once member (List.mem_singleton_self request)
    have taken : (machine right).step { s with sent := s.sent ++ early } (.send request) =
        some { s with sent := s.sent ++ early ++ [request] } := if_pos ⟨asked, new⟩
    exact (ih (List.Nodup.of_append_left once) fun other member =>
      known other (List.mem_append_left _ member)).next taken

private theorem reaches_answers {more : List α}
    (answered : ∀ number answer, (s.answers ++ more)[number]? = some answer →
      ∃ request, s.sent[number]? = some request ∧ right (s.sent.take number) request answer) :
    (machine right).Reaches s { s with answers := s.answers ++ more } := by
  induction more using List.reverseRecOn with
  | nil =>
    rw [List.append_nil]
    exact .refl s
  | append_singleton early answer ih =>
    rw [← List.append_assoc] at answered ⊢
    have last := answered _ answer List.getElem?_concat_length
    have taken : (machine right).step { s with answers := s.answers ++ early } (.execute answer) =
        some { s with answers := s.answers ++ early ++ [answer] } := if_pos last
    refine (ih fun number other found => answered number other ?_).next taken
    rw [List.getElem?_append_left (List.getElem?_eq_some_iff.mp found).1]
    exact found

private theorem reaches_taken {count : Nat} (less : s.taken + count ≤ s.answers.length) :
    (machine right).Reaches s { s with taken := s.taken + count } := by
  induction count with
  | zero => exact .refl s
  | succ count ih =>
    have taken : (machine right).step { s with taken := s.taken + count } .take =
        some { s with taken := s.taken + (count + 1) } := if_pos less
    exact (ih (Nat.le_of_succ_le less)).next taken

/-- Whatever grows and stays sound is a run of the service. -/
theorem Sound.reaches (sound : Sound right next) (grown : Grown s next) :
    (machine right).Reaches s next := by
  obtain ⟨asked, sameAsked⟩ := grown.asked
  obtain ⟨sent, sameSent⟩ := grown.sent
  obtain ⟨answers, sameAnswers⟩ := grown.answers
  obtain ⟨count, sameTaken⟩ := Nat.exists_eq_add_of_le grown.taken
  have fresh := sound.fresh
  have once := sound.once
  have known := sound.known
  have answered := sound.answered
  have less := sound.taken
  obtain ⟨nextAsked, nextSent, nextAnswers, nextTaken⟩ := next
  subst sameAsked sameSent sameAnswers sameTaken
  refine (reaches_asked fresh).trans (.trans (reaches_sent once ?_) (.trans (reaches_answers ?_)
    (reaches_taken less)))
  · exact fun request member => known request (List.mem_append_right _ member)
  · exact answered

end Service

end RpcLoop.Foundation
