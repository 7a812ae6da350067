import RegAtlas.Proofs.Dump.Insert

namespace RegAtlas.Dump

open Table (kept lost)

def mapping? : Node → Option (List (Node × Node))
  | .map es | .tagged (.map es) => some es
  | _ => none

def writtenPair? (e : Node × Node) : Option (Written × Recorded) := do
  let key ← e.1.typed?.bind written?
  let value ← e.2.typed?.bind recorded?
  return (key, value)

variable {f : Format} {text : String} {n : Node} {es : List (Node × Node)}
  {ps : List (Written × Recorded)} {d : Dump}

theorem listingOfPairs?_eq (l : Listing) : listingOfPairs? es l =
    (es.mapM writtenPair?).map fun ps => ps.foldl (fun l p => l.insert p.1 p.2) l := by
  induction es generalizing l with
  | nil => rfl
  | cons e es ih =>
    obtain ⟨k, v⟩ := e
    rw [listingOfPairs?, List.mapM_cons, writtenPair?]
    cases k.typed?.bind written? with
    | none => rfl
    | some key =>
      cases v.typed?.bind recorded? with
      | none => rfl
      | some value =>
        refine (ih _).trans ?_
        cases es.mapM writtenPair? <;> rfl

theorem listingOfNode?_eq (h : mapping? n = some es) :
    listingOfNode? n = (es.mapM writtenPair?).map Table.ofList := by
  unfold mapping? at h
  split at h
  next => cases h; exact listingOfPairs?_eq _
  next => cases h; exact listingOfPairs?_eq _
  next => cases h

theorem ofText_ok_iff (h : (f.read? .free text).bind mapping? = some es) :
    ofText f text = .ok d ↔ ∃ ps, es.mapM writtenPair? = some ps ∧ Records (kept ps) d := by
  obtain ⟨n, hn, hes⟩ := Option.bind_eq_some_iff.1 h
  rw [ofText, hn, Option.bind_some, listingOfNode?_eq hes]
  cases es.mapM writtenPair? with
  | none => simp
  | some ps =>
    simp only [Option.map_some, Option.some.injEq, exists_eq_left', ofListing_ok_iff]
    exact records_perm_iff Table.entries_ofList_perm

theorem Records.complete_iff (h : Records (kept ps) d) :
    Records ps d ↔ cells? (lost ps) = some [] :=
  (records_perm_iff Table.kept_append_lost_perm).symm.trans h.append_iff

theorem records_kept_iff (h : (ps.map Prod.fst).Nodup) : Records (kept ps) d ↔ Records ps d := by
  rw [Table.kept_of_nodup h]

/-- What becomes of the pairs of a document. -/
structure Recording (es : List (Node × Node)) (result : Except DumpError Dump) : Prop where
  /-- It is accepted exactly if the pairs that are not written over have different addresses, and
  then the dump is what these pairs say. -/
  accepted_iff : ∀ d, result = .ok d ↔
    ∃ ps, es.mapM writtenPair? = some ps ∧ Records (kept ps) d
  /-- No value is lost exactly if there is none in the pairs that are written over. -/
  complete_iff : ∀ d ps, result = .ok d → es.mapM writtenPair? = some ps →
    (Records ps d ↔ cells? (lost ps) = some [])
  /-- Where all keys differ nothing is lost, and two values for one address are refused. -/
  distinct : ∀ ps, es.mapM writtenPair? = some ps → (ps.map Prod.fst).Nodup →
    ∀ d, result = .ok d ↔ Records ps d

/-- A mapping is read into a dump of all values but those of pairs that are written over. -/
theorem recording_of_text (h : (f.read? .free text).bind mapping? = some es) :
    Recording es (ofText f text) where
  accepted_iff _ := ofText_ok_iff h
  complete_iff d ps hok hps := by
    obtain ⟨ps', hps', hrecords⟩ := (ofText_ok_iff h).1 hok
    cases hps.symm.trans hps'
    exact hrecords.complete_iff
  distinct ps hps hnodup d := by
    rw [ofText_ok_iff h, hps]
    simp only [Option.some.injEq, exists_eq_left', records_kept_iff hnodup]

theorem recording_of_list : ∃ es ps,
    (Format.hjson.read? .free "0x10: [1, 2]\n18: 3\n0x20: \"0xFF\"\n").bind mapping? = some es ∧
    es.mapM writtenPair? = some ps ∧
    cells? ps = some [(0x10#64, 1#64), (0x11#64, 2#64), (18#64, 3#64), (0x20#64, 255#64)] ∧
    Recording es (ofText .hjson "0x10: [1, 2]\n18: 3\n0x20: \"0xFF\"\n") := by
  have hcells : (((Format.hjson.read? .free "0x10: [1, 2]\n18: 3\n0x20: \"0xFF\"\n").bind
      mapping?).bind (·.mapM writtenPair?)).bind cells? =
      some [(0x10#64, 1#64), (0x11#64, 2#64), (18#64, 3#64), (0x20#64, 255#64)] := by decide +kernel
  obtain ⟨ps, hps, hcells⟩ := Option.bind_eq_some_iff.1 hcells
  obtain ⟨es, hes, hps⟩ := Option.bind_eq_some_iff.1 hps
  exact ⟨es, ps, hes, hps, hcells, recording_of_text hes⟩

theorem repeated_key_loses_value : ∃ es ps d,
    (Format.hjson.read? .free "0x10: 1\n0x10: 2\n").bind mapping? = some es ∧
    es.mapM writtenPair? = some ps ∧ cells? ps = some [(0x10#64, 1#64), (0x10#64, 2#64)] ∧
    ofText .hjson "0x10: 1\n0x10: 2\n" = .ok d ∧ d.entries = [(0x10#64, 2#64)] ∧ ¬Records ps d := by
  have hpairs : ((Format.hjson.read? .free "0x10: 1\n0x10: 2\n").bind mapping?).bind
      (·.mapM writtenPair?) = some [(.text "0x10", .one (.number 1#64)),
        (.text "0x10", .one (.number 2#64))] := by decide +kernel
  have hcells : cells? [(.text "0x10", .one (.number 1#64)), (.text "0x10", .one (.number 2#64))] =
      some [(0x10#64, 1#64), (0x10#64, 2#64)] := by decide +kernel
  obtain ⟨es, hes, hps⟩ := Option.bind_eq_some_iff.1 hpairs
  refine ⟨es, _, .ofList [(0x10#64, 2#64)], hes, hps, hcells,
    (ofText_ok_iff hes).2 ⟨_, hps, ?_⟩, rfl, ?_⟩
  · exact ⟨[(0x10#64, 2#64)], by decide +kernel, by decide, fun a v => Table.mem_entries_iff.symm⟩
  · rintro ⟨cells, hcells', hnodup, -⟩
    cases hcells.symm.trans hcells'
    revert hnodup
    decide

end RegAtlas.Dump
