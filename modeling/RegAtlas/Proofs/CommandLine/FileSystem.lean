import RegAtlas.CommandLine.Session
import RegAtlas.Proofs.Table.Entries

namespace RegAtlas

namespace CommandLine

/-- Files that can be told apart. A text that is written gets into one of them as a whole, and
there may be other paths that lead to it. -/
structure FileSystem (σ ι : Type) extends Access σ where
  content : σ → ι → Option Content
  read_of_write {s s' : σ} {path t : String} : write s path t = .ok s' → read s' path = .ok t
  frame_of_write {s s' : σ} {path t : String} : write s path t = .ok s' →
    ∃ i, content s' i = some (.text t) ∧ ∀ j, j ≠ i → content s' j = content s j

end CommandLine

namespace Directory

variable {d : Directory} {name : String} {c : Content}

def put (d : Directory) (name : String) (c : Content) : Directory := ⟨d.files.insert name c⟩

theorem mem_keys_put {k : String} :
    k ∈ (d.put name c).files.keys ↔ k = name ∨ k ∈ d.files.keys := by
  rw [Table.mem_keys_iff, Table.mem_keys_iff, put]
  simp only [Table.get?_insert]
  by_cases h : k = name <;> simp [h]

theorem isDirectory_iff {parts : List String} :
    d.isDirectory parts = true ↔
      parts = [] ∨ ∃ k ∈ d.files.keys, (pathText parts ++ "/").toList <+: k.toList := by
  simp only [isDirectory, Bool.or_eq_true, List.isEmpty_iff, List.any_eq_true,
    String.startsWith_string_iff]

theorem isDirectory_put {parts : List String} (h : d.isDirectory parts = true) :
    (d.put name c).isDirectory parts = true := by
  rw [isDirectory_iff] at h ⊢
  exact h.imp_right fun ⟨k, hk, hp⟩ => ⟨k, mem_keys_put.2 (.inr hk), hp⟩

theorem isDirectory_put_self {parts : List String} (h : d.isDirectory parts = false) :
    (d.put (pathText parts) c).isDirectory parts = false := by
  rw [Bool.eq_false_iff, ne_eq, isDirectory_iff] at h ⊢
  rintro (rfl | ⟨k, hk, hp⟩)
  · exact h (.inl rfl)
  · rcases mem_keys_put.1 hk with rfl | hk
    · have := hp.length_le
      rw [String.toList_append, List.length_append] at this
      exact absurd this (by simp)
    · exact h (.inr ⟨k, hk, hp⟩)

def Target.Names (name : String) : Target → Prop
  | .file n _ slash | .missing n slash => n = name ∧ slash = false
  | .directory | .outside => False

theorem follow_put_last {base : List String} {part : String}
    (hstay : ¬(part == "" || part == ".") = true) (hup : ¬(part == "..") = true)
    (hdir : ¬d.isDirectory (base ++ [part]) = true) :
    (d.put (pathText (base ++ [part])) c).follow base [part] =
      .ok (.file (pathText (base ++ [part])) c false) := by
  rw [follow, if_neg hstay, if_neg hup]
  simp only
  rw [isDirectory_put_self (Bool.eq_false_iff.2 hdir), if_neg nofun, put, Table.get?_insert,
    if_pos rfl]
  rfl

theorem follow_put {base parts : List String} {t : Target} (h : d.follow base parts = .ok t)
    (ht : t.Names name) : (d.put name c).follow base parts = .ok (.file name c false) := by
  fun_induction d.follow base parts with
  | case1 =>
    cases h
    exact ht.elim
  | case2 base part parts hstay ih =>
    rw [follow, if_pos hstay]
    exact ih h
  | case3 =>
    cases h
    split at ht <;> exact ht.elim
  | case4 base part parts hstay hup hbase ih =>
    rw [follow, if_neg hstay, if_pos hup, if_neg hbase]
    exact ih h
  | case5 base part parts hstay hup here hdir ih =>
    rw [follow, if_neg hstay, if_neg hup]
    simp only
    rw [isDirectory_put hdir, if_pos rfl]
    exact ih h
  | case6 base part parts hstay hup here _ slash hdir
  | case8 base part parts hstay hup here _ slash hdir =>
    cases h
    obtain ⟨rfl, hslash⟩ := ht
    obtain rfl : parts = [] := by simpa [slash] using hslash
    exact follow_put_last hstay hup hdir
  | case7 | case9 => cases h

theorem target_put {path : String} {t : Target} (h : d.target path = .ok t) (ht : t.Names name) :
    (d.put name c).target path = .ok (.file name c false) := by
  unfold target at h ⊢
  split
  next hempty =>
    rw [if_pos hempty] at h
    cases h
  next hempty =>
  rw [if_neg hempty] at h
  split
  next hroot =>
    rw [if_pos hroot] at h
    cases h
    split at ht <;> exact ht.elim
  next hroot =>
    rw [if_neg hroot] at h
    exact follow_put h ht

theorem write_ok_iff {path t : String} {d' : Directory} :
    d.write path t = .ok d' ↔
      ∃ name target, d.target path = .ok target ∧ target.Names name ∧
        d' = d.put name (.text t) := by
  unfold write
  cases htarget : d.target path with
  | error fault => simp [bind, Except.bind]
  | ok target =>
    simp only [bind, Except.bind, Except.ok.injEq, exists_eq_left']
    obtain _ | ⟨_, _, _ | _⟩ | ⟨_, _ | _⟩ | _ := target <;>
      simp [Target.Names, put, throw, throwThe, MonadExceptOf.throw, pure, Except.pure, eq_comm]

end Directory

namespace CommandLine

def directories : FileSystem Directory String where
  toAccess := directoryAccess
  content d name := d.files.get? name
  read_of_write {d d' path t} h := by
    obtain ⟨name, target, htarget, hname, rfl⟩ := Directory.write_ok_iff.1 h
    change Directory.read _ _ = _
    rw [Directory.read, Directory.target_put htarget hname]
    rfl
  frame_of_write {d d' path t} h := by
    obtain ⟨name, target, htarget, hname, rfl⟩ := Directory.write_ok_iff.1 h
    refine ⟨name, ?_, fun j hj => ?_⟩
    · simp only [Directory.put, Table.get?_insert, if_true]
    · simp only [Directory.put, Table.get?_insert, if_neg hj]

end CommandLine

end RegAtlas
