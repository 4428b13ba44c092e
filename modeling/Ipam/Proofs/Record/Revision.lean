import Ipam.Proofs.Tag.Text
import Ipam.Repository

/-!
# What an update changes

An update changes the fields of a record that are present in its request, and the time of its last
change. All else stays, the id, the project and the pair among it.
-/

namespace Ipam

/-- A record is another one with the fields of an update request that are present, and a new time of
its last change. -/
structure Record.RevisedBy (old : Record) (now : Instant) (req : Wire.UpdateRequest)
    (new : Record) : Prop where
  name : new.name = req.name.getD old.name
  description : new.description = req.description.getD old.description
  retention : (req.kind = none ∧ new.retention = old.retention) ∨
    ∃ kind, req.kind = some kind ∧ kind.retention = .ok new.retention
  tags : (req.tags = none ∧ new.tags = old.tags) ∨
    ∃ tags, req.tags = some tags ∧ new.tags = .ofStrings tags
  updatedAt : new.updatedAt = now
  id : new.id = old.id
  allocationId : new.allocationId = old.allocationId
  address : new.address = old.address
  parentPrefix : new.parentPrefix = old.parentPrefix
  networkId : new.networkId = old.networkId
  projectId : new.projectId = old.projectId
  createdAt : new.createdAt = old.createdAt

theorem Record.RevisedBy.slot_eq {now : Instant} {req : Wire.UpdateRequest} {old new : Record}
    (h : old.RevisedBy now req new) : new.slot = old.slot := Prod.ext h.parentPrefix h.address

theorem Record.RevisedBy.legible {now : Instant} {req : Wire.UpdateRequest} {old new : Record}
    (h : old.RevisedBy now req new) (hold : old.tags.Legible) : new.tags.Legible := by
  rcases h.tags with ⟨-, htags⟩ | ⟨tags, -, htags⟩
  · exact htags ▸ hold
  · exact htags ▸ TagSet.legible_ofStrings tags

theorem Repository.revise_eq_ok {now : Instant} {req : Wire.UpdateRequest} {old new : Record}
    (h : Repository.revise now req old = .ok new) : old.RevisedBy now req new := by
  have htags : (req.tags = none ∧ (req.tags.map TagSet.ofStrings).getD old.tags = old.tags) ∨
      ∃ tags, req.tags = some tags ∧
        (req.tags.map TagSet.ofStrings).getD old.tags = .ofStrings tags := by
    cases req.tags with
    | none => exact .inl ⟨rfl, rfl⟩
    | some tags => exact .inr ⟨tags, rfl, rfl⟩
  unfold Repository.revise at h
  cases hk : req.kind with
  | none =>
    simp only [hk, pure, Except.pure, bind, Except.bind] at h
    cases h
    exact ⟨rfl, rfl, .inl ⟨hk, rfl⟩, htags, rfl, rfl, rfl, rfl, rfl, rfl, rfl, rfl⟩
  | some kind =>
    cases hr : kind.retention with
    | error e =>
      simp only [hk, hr, bind, Except.bind] at h
      cases h
    | ok retention =>
      simp only [hk, hr, pure, Except.pure, bind, Except.bind] at h
      cases h
      exact ⟨rfl, rfl, .inr ⟨kind, hk, hr⟩, htags, rfl, rfl, rfl, rfl, rfl, rfl, rfl, rfl⟩

/-- A revised record keeps its id and its pair. -/
theorem Repository.revise_eq {now : Instant} {req : Wire.UpdateRequest} {old new : Record}
    (h : Repository.revise now req old = .ok new) : new.id = old.id ∧ new.slot = old.slot := by
  have hrev := Repository.revise_eq_ok h
  exact ⟨hrev.id, hrev.slot_eq⟩

end Ipam
