import Ipam.Proofs.Service.Listing

/-!
# Requests that ask for more

A list request that has more criteria than another one answers with fewer records, where no text of
a tag in it replaces one that was there (`AdminService.list_narrows`): of the texts with a key only
the last one counts, so a text that comes later may take a criterion away.
-/

namespace Ipam

/-- A request has the criteria of another one, and may have more: fields that were not said are
said, and texts of tags come after those that were there. -/
structure Wire.ListRequest.Narrows (req wider : Wire.ListRequest) : Prop where
  ip : ∀ raw ∈ wider.ip, raw ∈ req.ip
  network : ∀ id ∈ wider.network, id ∈ req.network
  project : ∀ id ∈ wider.project, id ∈ req.project
  name : ∀ name ∈ wider.name, name ∈ req.name
  uuid : ∀ raw ∈ wider.uuid, raw ∈ req.uuid
  machine : ∀ id ∈ wider.machineId, id ∈ req.machineId
  parentPrefix : ∀ raw ∈ wider.parentPrefix, raw ∈ req.parentPrefix
  tags : wider.tags <+: req.tags
  kind : ∀ kind ∈ wider.kind, kind ≠ .unspecified → kind ∈ req.kind
  family : ∀ name ∈ wider.family, name ≠ .unspecified → name ∈ req.family

namespace Wire.ListRequest

variable {req wider : Wire.ListRequest} {r : Record}

theorem Narrows.readable (h : req.Narrows wider) (hread : req.Readable) : wider.Readable where
  ip := fun raw hraw => hread.ip raw (h.ip raw hraw)
  uuid := fun raw hraw => hread.uuid raw (h.uuid raw hraw)
  parentPrefix := fun raw hraw => hread.parentPrefix raw (h.parentPrefix raw hraw)

/-- The last text with a key that a request lists is that of a tag of every record it selects. -/
theorem Selects.mem_of_prevails (h : req.Selects r) {raw : String}
    (hraw : Tag.Prevails raw req.tags) : Tag.parse raw ∈ r.tags.toList :=
  h.tags _ (TagSet.mem_ofStrings.2 ⟨raw, hraw, rfl⟩)

/-- What a request selects a wider one selects too, where the last texts with the keys of the wider
one are the last ones in both. -/
theorem Narrows.selects (h : req.Narrows wider)
    (hlast : ∀ raw last, Tag.Prevails raw wider.tags → Tag.Prevails last req.tags →
      (Tag.parse last).key = (Tag.parse raw).key → last = raw)
    (hr : req.Selects r) : wider.Selects r where
  address := fun raw hraw => hr.address raw (h.ip raw hraw)
  network := fun id hid => hr.network id (h.network id hid)
  project := fun id hid => hr.project id (h.project id hid)
  name := fun name hname => hr.name name (h.name name hname)
  uuid := fun raw hraw => hr.uuid raw (h.uuid raw hraw)
  machine := fun id hid => hr.machine id (h.machine id hid)
  parentPrefix := fun raw hraw => hr.parentPrefix raw (h.parentPrefix raw hraw)
  tags := by
    intro t ht
    obtain ⟨raw, hraw, rfl⟩ := TagSet.mem_ofStrings.1 ht
    obtain ⟨last, hprevails, hkey⟩ := Tag.exists_prevails (h.tags.subset hraw.mem)
    have he : last = raw := hlast raw last hraw hprevails hkey
    exact hr.mem_of_prevails (he ▸ hprevails)
  kind := fun kind hkind hne => hr.kind kind (h.kind kind hkind hne) hne
  family := fun name hname hne => hr.family name (h.family name hname hne) hne

end Wire.ListRequest

namespace AdminService

/-- A request that asks for more answers with no record that the wider one would not answer with,
where no text of a tag replaces another one with its key; and every record that is answered has, of
the texts of tags that are listed with a key, the last one. -/
theorem list_narrows {req wider : Wire.ListRequest} (h : req.Narrows wider) (hread : req.Readable)
    (m : Memory) (picks : Picks) :
    ∃ ws ws', ((AdminService.list wider).serve (m, picks)).1 = .ok ws ∧
      ((AdminService.list req).serve (m, picks)).1 = .ok ws' ∧
      ((∀ raw last, Tag.Prevails raw wider.tags → Tag.Prevails last req.tags →
        (Tag.parse last).key = (Tag.parse raw).key → last = raw) → ws'.Sublist ws) ∧
      ∀ w ∈ ws', ∀ raw ∈ req.tags, ∃ last ∈ w.tags, Tag.Prevails last req.tags ∧
        (Tag.parse last).key = (Tag.parse raw).key := by
  have hwider := AdminService.serve_list_of_readable (h.readable hread) m picks
  have hreq := AdminService.serve_list_of_readable hread m picks
  refine ⟨_, _, congrArg Prod.fst hwider, congrArg Prod.fst hreq, fun hlast => ?_, ?_⟩
  · refine List.Sublist.map _ (List.monotone_filter_right _ fun r hr => ?_)
    obtain ⟨hselects, hvisible⟩ := of_decide_eq_true hr
    exact decide_eq_true ⟨h.selects hlast hselects, hvisible⟩
  · intro w hw raw hraw
    obtain ⟨r, hr, rfl⟩ := List.mem_map.1 hw
    obtain ⟨hselects, -⟩ := of_decide_eq_true (List.mem_filter.1 hr).2
    obtain ⟨last, hprevails, hkey⟩ := Tag.exists_prevails hraw
    refine ⟨last, ?_, hprevails, hkey⟩
    have hmem : Tag.parse last ∈ r.tags.toList := hselects.mem_of_prevails hprevails
    exact List.mem_map.2 ⟨_, hmem, Tag.text_parse last⟩

theorem narrows_tagged (tags more : List String) :
    (Service.tagged (tags ++ more)).Narrows (Service.tagged tags) where
  ip := nofun
  network := nofun
  project := nofun
  name := nofun
  uuid := nofun
  machine := nofun
  parentPrefix := fun _ h => h
  tags := List.prefix_append _ _
  kind := nofun
  family := nofun

theorem list_narrows_mixed :
    (Service.tagged ["env=prod", "team=a"]).Narrows (Service.tagged ["env=prod"]) ∧
    (Service.tagged ["env=prod", "team=a"]).Readable ∧
    ∃ ws ws', ((AdminService.list (Service.tagged ["env=prod"])).serve
        (Service.mixed, fun _ => 0)).1 = .ok ws ∧
      ((AdminService.list (Service.tagged ["env=prod", "team=a"])).serve
        (Service.mixed, fun _ => 0)).1 = .ok ws' ∧
      ws'.Sublist ws ∧ ws.map Wire.Ip.id = ["1", "2"] ∧ ws'.map Wire.Ip.id = ["1"] := by
  have hnarrows : (Service.tagged ["env=prod", "team=a"]).Narrows (Service.tagged ["env=prod"]) :=
    narrows_tagged ["env=prod"] ["team=a"]
  have hread := Service.tagged_readable ["env=prod", "team=a"]
  obtain ⟨ws, ws', hws, hws', hsub, -⟩ := list_narrows hnarrows hread Service.mixed fun _ => 0
  refine ⟨hnarrows, hread, ws, ws', hws, hws', hsub fun raw last hraw hlast => ?_, ?_, ?_⟩
  · have hdistinct : ∀ raw ∈ ["env=prod"], ∀ last ∈ ["env=prod", "team=a"],
        (Tag.parse last).key = (Tag.parse raw).key → last = raw := by decide
    exact hdistinct raw hraw.mem last hlast.mem
  · have hids : ((AdminService.list (Service.tagged ["env=prod"])).serve
        (Service.mixed, fun _ => 0)).1.map (List.map Wire.Ip.id) = .ok ["1", "2"] := by
      decide +kernel
    rw [hws] at hids
    exact Except.ok.inj hids
  · have hids : ((AdminService.list (Service.tagged ["env=prod", "team=a"])).serve
        (Service.mixed, fun _ => 0)).1.map (List.map Wire.Ip.id) = .ok ["1"] := by
      decide +kernel
    rw [hws'] at hids
    exact Except.ok.inj hids

/-- A text that replaces the one before it lets in what the one before it kept out. -/
theorem list_widened_by_replacement :
    (Service.tagged ["env=dev", "env=prod"]).Narrows (Service.tagged ["env=dev"]) ∧
    (Service.tagged ["env=dev", "env=prod"]).Readable ∧ (Service.tagged ["env=dev"]).Readable ∧
    ((AdminService.list (Service.tagged ["env=dev"])).serve
      (Service.mixed, fun _ => 0)).1 = .ok [] ∧
    ((AdminService.list (Service.tagged ["env=dev", "env=prod"])).serve
      (Service.mixed, fun _ => 0)).1.map (List.map fun w => (w.id, w.tags)) =
        .ok [("1", ["env=prod", "team=a"]), ("2", ["env=prod"])] := by
  exact ⟨narrows_tagged ["env=dev"] ["env=prod"], Service.tagged_readable _,
    Service.tagged_readable _, by decide +kernel, by decide +kernel⟩

end AdminService

end Ipam
