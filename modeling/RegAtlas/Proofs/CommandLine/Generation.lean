import RegAtlas.Proofs.CommandLine.FileSystem
import RegAtlas.Proofs.Success

namespace RegAtlas.CommandLine

variable {σ ι α β : Type}

def HoldsMap (a : Access σ) (s : σ) (path : String) (m : RegisterMap) : Prop :=
  ∃ t l, a.read s path = .ok t ∧ Listing.ofText path (FilePath.format path) t = .ok l ∧
    l.build.result = .ok m

def HoldsConfig (a : Access σ) (s : σ) (path : String) (c : Config) : Prop :=
  ∃ t, a.read s path = .ok t ∧ Config.ofText? t = some c

def HoldsDump (a : Access σ) (s : σ) (path : String) (d : Dump) : Prop :=
  ∃ t, a.read s path = .ok t ∧ Dump.ofText (FilePath.format path) t = .ok d

namespace GenRequest

def HasConfig (r : GenRequest) (a : Access σ) (s : σ) (c : Config) : Prop :=
  match r.config with
  | none => c = .standard
  | some path => HoldsConfig a s path c

def HasDump (r : GenRequest) (a : Access σ) (s : σ) (d : Option Dump) : Prop :=
  match r.dump with
  | none => d = none
  | some path => ∃ d', HoldsDump a s path d' ∧ d = some d'

/-- The request asks for this text. -/
def Generates (r : GenRequest) (a : Access σ) (s : σ) (t : String) : Prop :=
  ∃ g ∈ Generator.all, g.name = r.generator ∧ ∃ m, HoldsMap a s r.input m ∧
    ∃ c, r.HasConfig a s c ∧ ∃ d, r.HasDump a s d ∧
      (g.generate m (r.setting c d)).result = .ok t

/-- The text can be delivered. -/
def Accepted (r : GenRequest) (a : Access σ) (s : σ) (t : String) : Prop :=
  if r.output = "-" then a.print t = .ok () else ∃ s', a.write s r.output t = .ok s'

/-- The text has been delivered, and nothing else has been changed. -/
def Delivered (r : GenRequest) (fs : FileSystem σ ι) (t : String) (w w' : World σ) : Prop :=
  if r.output = "-" then w'.printed = w.printed ++ t ∧ w'.files = w.files
  else w'.printed = w.printed ∧ fs.read w'.files r.output = .ok t ∧
    ∃ i, fs.content w'.files i = some (.text t) ∧
      ∀ j, j ≠ i → fs.content w'.files j = fs.content w.files j

end GenRequest

theorem run_bind (x : Task (StateM (World σ)) α) (f : α → Task (StateM (World σ)) β) (w : World σ) :
    (x >>= f).run w =
      match x.run w with
      | (.ok b, w') => (f b).run w'
      | (.error e, w') => (.error e, w') := by
  have step (y : StateM (World σ) (Except RunError α))
      (g : _ → StateM (World σ) (Except RunError β)) :
      (y >>= g) w = g (y w).1 (y w).2 := rfl
  rw [ExceptT.run_bind, step]
  obtain ⟨r | b, w'⟩ := x.run w <;> rfl

/-- In worlds with these files the task has the values that satisfy `P`, of which there is at most
one, or else fails, and in either case only the journal grows. -/
def Finds (s : σ) (x : Task (StateM (World σ)) α) (P : α → Prop) : Prop :=
  ∃ r : Except RunError α, (∀ b, r = .ok b ↔ P b) ∧
    ∀ w : World σ, w.files = s → ∃ es, x.run w = (r, w.tell es)

namespace Finds

variable {s : σ} {x : Task (StateM (World σ)) α} {P : α → Prop}

theorem congr {P' : α → Prop} (h : Finds s x P) (hP : ∀ b, P b ↔ P' b) : Finds s x P' := by
  obtain ⟨r, hr, hx⟩ := h
  exact ⟨r, fun b => (hr b).trans (hP b), hx⟩

theorem bind {f : α → Task (StateM (World σ)) β} {Q : α → β → Prop} (hx : Finds s x P)
    (hf : ∀ b, P b → Finds s (f b) (Q b)) : Finds s (x >>= f) fun c => ∃ b, P b ∧ Q b c := by
  obtain ⟨r, hr, hx⟩ := hx
  cases r with
  | error e =>
    refine ⟨.error e, fun c => ⟨nofun, fun ⟨b, hb, _⟩ => nomatch (hr b).2 hb⟩, fun w hw => ?_⟩
    obtain ⟨es, he⟩ := hx w hw
    exact ⟨es, by rw [run_bind, he]⟩
  | ok b =>
    obtain ⟨r', hr', hf⟩ := hf b ((hr b).1 rfl)
    refine ⟨r', fun c => (hr' c).trans ⟨fun hc => ⟨b, (hr b).1 rfl, hc⟩, ?_⟩, fun w hw => ?_⟩
    · rintro ⟨b', hb', hc⟩
      cases (hr b').2 hb'
      exact hc
    · obtain ⟨es, he⟩ := hx w hw
      obtain ⟨es', he'⟩ := hf (w.tell es) hw
      refine ⟨es ++ es', ?_⟩
      rw [run_bind, he]
      refine he'.trans ?_
      simp only [World.tell, List.append_assoc]

theorem pure (b : α) : Finds s (pure b) (· = b) :=
  ⟨.ok b, fun _ => ⟨fun h => (Except.ok.inj h).symm, fun h => congrArg _ h.symm⟩,
    fun w _ => ⟨[], by simp only [World.tell, List.append_nil]; rfl⟩⟩

theorem lift (r : Except RunError α) : Finds s (liftM r) (r = .ok ·) :=
  ⟨r, fun _ => .rfl, fun w _ => ⟨[], by simp only [World.tell, List.append_nil]; rfl⟩⟩

theorem complete (a : Access σ) (x : Run α) :
    Finds s (a.surroundings.complete x) (x.result = .ok ·) :=
  ⟨x.result, fun _ => .rfl, fun _ _ => ⟨x.events, rfl⟩⟩

theorem read (a : Access σ) (path : String) (refusal : FileFault → RunError) :
    Finds s (Surroundings.ask (a.surroundings.read path) refusal) (a.read s path = .ok ·) := by
  refine ⟨(a.read s path).mapError refusal, fun t => Success.mapError_eq_ok, fun w hw => ⟨[], ?_⟩⟩
  subst hw
  simp only [World.tell, List.append_nil]
  rfl

variable (a : Access σ)

theorem loadMap (path : String) : Finds s (a.surroundings.loadMap path) (HoldsMap a s path) := by
  refine ((complete a _).bind fun _ _ => (read a path _).bind fun t _ => complete a _).congr
    fun m => ?_
  simp only [Logged.result_report, Logged.result_bind, Logged.result_liftM, Logged.mapError,
    Success.bind_eq_ok, Success.mapError_eq_ok, HoldsMap, exists_and_left, true_and, exists_const]

theorem loadConfig (path : String) :
    Finds s (a.surroundings.loadConfig path) (HoldsConfig a s path) := by
  refine ((read a path _).bind fun t _ => lift _).congr fun c => ?_
  refine exists_congr fun t => and_congr_right fun _ => ?_
  cases Config.ofText? t <;> simp

theorem loadDump (path : String) :
    Finds s (a.surroundings.loadDump path) (HoldsDump a s path) := by
  refine ((read a path _).bind fun t _ => lift _).congr fun d => ?_
  exact exists_congr fun t => and_congr_right fun _ => Success.mapError_eq_ok

variable (r : GenRequest)

theorem config : Finds s (r.loadConfig a.surroundings) (r.HasConfig a s) := by
  unfold GenRequest.loadConfig GenRequest.HasConfig
  cases r.config with
  | none => exact pure Config.standard
  | some path => exact loadConfig a path

theorem dump : Finds s (r.loadDump a.surroundings) (r.HasDump a s) := by
  unfold GenRequest.loadDump GenRequest.HasDump
  cases r.dump with
  | none => exact pure none
  | some path => exact (loadDump a path).bind fun d _ => pure (some d)

end Finds

theorem named?_eq_some_iff {name : String} {g : Generator} :
    Generator.named? name = some g ↔ g ∈ Generator.all ∧ g.name = name := by
  constructor
  · intro h
    exact ⟨List.mem_of_find?_eq_some h, by simpa using List.find?_some h⟩
  · rintro ⟨-, rfl⟩
    cases g <;> decide

theorem Finds.text (a : Access σ) (s : σ) (r : GenRequest) :
    Finds s (r.text a.surroundings) (r.Generates a s) := by
  refine ((lift _).bind fun g _ => (loadMap a r.input).bind fun m _ => (config a r).bind fun c _ =>
    (dump a r).bind fun d _ => complete a _).congr fun t => ?_
  refine exists_congr fun g => ?_
  have hg : (Generator.named? r.generator).elim (.error (.unknownGenerator r.generator)) .ok =
      (.ok g : Except RunError Generator) ↔ g ∈ Generator.all ∧ g.name = r.generator := by
    rw [← named?_eq_some_iff]
    cases Generator.named? r.generator <;> simp
  simp only [hg, and_assoc, Logged.seq_eq_ok, Logged.result_report, true_and, Logged.mapError,
    Success.mapError_eq_ok]

theorem run_ask (request : StateM (World σ) (Except FileFault α)) (refusal : FileFault → RunError)
    (w : World σ) :
    (Surroundings.ask request refusal).run w =
      ((request w).1.mapError refusal, (request w).2) :=
  rfl

theorem run_deliver (a : Access σ) (r : GenRequest) (t : String) (w : World σ) :
    (r.deliver a.surroundings t).run w =
      if r.output = "-" then
        match a.print t with
        | .ok () => (.ok (), { w with printed := w.printed ++ t })
        | .error fault => (.error (.notPrinted fault), w)
      else
        match a.write w.files r.output t with
        | .ok files => (.ok (), ({ w with files } : World σ).tell [.wrote r.output])
        | .error fault => (.error (.notWritten r.output fault), w) := by
  unfold GenRequest.deliver GenRequest.printsOutput
  by_cases hout : r.output = "-"
  · rw [if_pos (beq_iff_eq.2 hout), if_pos hout, run_ask]
    simp only [Access.surroundings]
    cases a.print t <;> rfl
  · rw [if_neg (by simpa using hout), if_neg hout, run_bind, run_ask]
    simp only [Access.surroundings]
    cases a.write w.files r.output t <;> rfl

theorem deliver_cases (fs : FileSystem σ ι) (r : GenRequest) (t : String) (w : World σ) :
    match (r.deliver fs.surroundings t).run w with
    | (.ok (), w') => r.Accepted fs.toAccess w.files t ∧ r.Delivered fs t w w'
    | (.error _, w') => ¬ r.Accepted fs.toAccess w.files t ∧ w' = w := by
  rw [run_deliver]
  unfold GenRequest.Accepted GenRequest.Delivered
  by_cases hout : r.output = "-"
  · simp only [hout, if_true]
    cases h : fs.print t with
    | error fault => exact ⟨nofun, rfl⟩
    | ok => exact ⟨rfl, rfl, rfl⟩
  · simp only [hout, if_false]
    cases h : fs.write w.files r.output t with
    | error fault => exact ⟨nofun, rfl⟩
    | ok s' => exact ⟨⟨s', rfl⟩, rfl, fs.read_of_write h, fs.frame_of_write h⟩

theorem Finds.run_bind {x : Task (StateM (World σ)) α} {P : α → Prop} {w : World σ}
    (hx : Finds w.files x P) (f : α → Task (StateM (World σ)) β) :
    (∃ e es, (∀ b, ¬ P b) ∧ (x >>= f).run w = (.error e, w.tell es)) ∨
      ∃ b es, (∀ b', P b' ↔ b' = b) ∧ (x >>= f).run w = (f b).run (w.tell es) := by
  obtain ⟨r, hr, hrun⟩ := hx
  obtain ⟨es, hrun⟩ := hrun w rfl
  cases r with
  | error e =>
    refine .inl ⟨e, es, fun b hb => absurd ((hr b).2 hb) nofun, ?_⟩
    rw [CommandLine.run_bind, hrun]
  | ok b =>
    refine .inr ⟨b, es, fun b' => ?_, ?_⟩
    · rw [← hr, Except.ok.injEq, eq_comm]
    · rw [CommandLine.run_bind, hrun]

/-- A generation succeeds exactly if there is a text that it asks for and that can be delivered. It
has then delivered this text and changed nothing else, and otherwise it has changed nothing. -/
theorem GenRequest.perform_allOrNothing (fs : FileSystem σ ι) (r : GenRequest) (w : World σ) :
    match (r.perform fs.surroundings).run w with
    | (.ok (), w') => ∃ t, r.Generates fs.toAccess w.files t ∧
        r.Accepted fs.toAccess w.files t ∧ r.Delivered fs t w w'
    | (.error _, w') =>
        (∀ t, r.Generates fs.toAccess w.files t → ¬ r.Accepted fs.toAccess w.files t) ∧
          w'.files = w.files ∧ w'.printed = w.printed := by
  unfold GenRequest.perform
  obtain ⟨e, es, hnone, hrun⟩ | ⟨t, es, ht, hrun⟩ :=
    (Finds.text fs.toAccess w.files r).run_bind (r.deliver fs.surroundings)
  · rw [hrun]
    exact ⟨fun t h => absurd h (hnone t), rfl, rfl⟩
  · rw [hrun]
    have hdeliver := deliver_cases fs r t (w.tell es)
    split at hdeliver
    next => exact ⟨t, (ht t).2 rfl, hdeliver⟩
    next =>
      obtain ⟨hrefused, rfl⟩ := hdeliver
      refine ⟨fun t' ht' => ?_, rfl, rfl⟩
      rw [(ht t').1 ht']
      exact hrefused

/-- A listing that builds, one with two registers at the same address, and an empty dump. -/
def workbench : Directory where
  files := .ofList [
    ("chip.hjson", .text
      "map_name: \"chip\", default_register_bitwidth: 8, registers: \x7bA: \x7badr: 1\x7d\x7d"),
    ("crowded.hjson", .text ("map_name: \"chip\", default_register_bitwidth: 8, " ++
      "registers: \x7bA: \x7badr: 1\x7d, B: \x7badr: 1\x7d\x7d")),
    ("dump.hjson", .text "\x7b\x7d")]

def analysisOf (input : String) : GenRequest :=
  ⟨input, "out.md", "md.regdumpanalysis", some "dump.hjson", none, .none⟩

theorem workbench_perform :
    (∃ t w', ((analysisOf "chip.hjson").perform directories.surroundings).run ⟨workbench, "", []⟩ =
        (.ok (), w') ∧ (analysisOf "chip.hjson").Delivered directories t ⟨workbench, "", []⟩ w') ∧
      ∃ e w', ((analysisOf "crowded.hjson").perform directories.surroundings).run
        ⟨workbench, "", []⟩ = (.error e, w') ∧ w'.files = workbench := by
  have hok : (((analysisOf "chip.hjson").perform directories.surroundings).run
    ⟨workbench, "", []⟩).1.isOk = true := by decide +kernel
  have herror : (((analysisOf "crowded.hjson").perform directories.surroundings).run
    ⟨workbench, "", []⟩).1.isOk = false := by decide +kernel
  constructor
  · have h := GenRequest.perform_allOrNothing directories (analysisOf "chip.hjson")
      ⟨workbench, "", []⟩
    split at h
    next w' heq =>
      obtain ⟨t, -, -, ht⟩ := h
      exact ⟨t, w', heq, ht⟩
    next heq =>
      rw [heq] at hok
      cases hok
  · have h := GenRequest.perform_allOrNothing directories (analysisOf "crowded.hjson")
      ⟨workbench, "", []⟩
    split at h
    next heq =>
      rw [heq] at herror
      cases herror
    next e w' heq => exact ⟨e, w', heq, h.2.1⟩

def Decisive (x : Task (StateM (World σ)) α) : Prop :=
  ∀ w, (x.run w).1.isOk = false → (x.run w).2 = w

theorem decisive_print (a : Access σ) (t : String) :
    Decisive (Surroundings.ask (a.surroundings.print t) .notPrinted) := by
  intro w
  rw [run_ask]
  simp only [Access.surroundings]
  cases a.print t <;> simp [Except.mapError, Except.isOk, Except.toBool]

theorem decisive_deliver (a : Access σ) (r : GenRequest) (t : String) :
    Decisive (r.deliver a.surroundings t) := by
  intro w
  rw [run_deliver]
  by_cases hout : r.output = "-"
  · rw [if_pos hout]
    cases a.print t <;> simp [Except.isOk, Except.toBool]
  · rw [if_neg hout]
    cases a.write w.files r.output t <;> simp [Except.isOk, Except.toBool]

theorem Finds.failed_bind {x : Task (StateM (World σ)) α} {P : α → Prop} {w : World σ}
    {f : α → Task (StateM (World σ)) β} (hx : Finds w.files x P) (hf : ∀ b, Decisive (f b))
    (h : ((x >>= f).run w).1.isOk = false) : ∃ es, ((x >>= f).run w).2 = w.tell es := by
  obtain ⟨e, es, -, hrun⟩ | ⟨b, es, -, hrun⟩ := hx.run_bind f
  · exact ⟨es, by rw [hrun]⟩
  · rw [hrun] at h ⊢
    exact ⟨es, hf b _ h⟩

theorem run_failed (a : Access σ) (c : Command) (w : World σ) (h : (a.run c w).1.isOk = false) :
    ∃ es, (a.run c w).2 = w.tell es := by
  cases c with
  | gen r => exact (Finds.text a w.files r).failed_bind (decisive_deliver a r) h
  | validate input =>
    exact (Finds.loadMap a input).failed_bind
      (fun m => decisive_print a (unlines [summary input m])) h
  | list => exact ⟨[], by
      rw [World.tell, List.append_nil]
      exact decisive_print a (unlines generatorLines) w h⟩

theorem runIn_failed {i : Invocation} {d : Directory} (h : (i.runIn d).exit ≠ 0) :
    (i.runIn d).directory = d ∧ (i.runIn d).output = "" := by
  have hfailed := run_failed directoryAccess i.command ⟨d, "", []⟩
  unfold Invocation.runIn at h ⊢
  split
  next heq =>
    rw [heq] at h
    exact absurd rfl h
  next e w heq =>
    rw [heq] at hfailed
    obtain ⟨es, rfl⟩ := hfailed rfl
    exact ⟨rfl, rfl⟩

/-- A session that does not end with exit code 0 leaves the directory as it was and prints
nothing. -/
theorem session_failed {d : Directory} {arguments : List String}
    (h : (session d arguments).exit ≠ 0) :
    (session d arguments).directory = d ∧ (session d arguments).output = "" := by
  unfold session at h ⊢
  split
  next i heq =>
    rw [heq] at h
    exact runIn_failed h
  next heq => exact absurd (by rw [heq]) h
  next heq => exact absurd (by rw [heq]) h
  next => exact ⟨rfl, rfl⟩

end RegAtlas.CommandLine
