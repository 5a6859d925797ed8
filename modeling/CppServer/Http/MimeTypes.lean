import CppServer.Lib.CString
import CppServer.Lib.Once

/-!
# `MimeTypes`

`GetMime` fills the table in its first call, by `pthread_once`, and looks a suffix up without a
lock.  `operator[]` of an `unordered_map` inserts a key that is not there, so a look-up might
change the table under another thread.

* `full_eq` — what the table holds.
* `readOnly` — no look-up changes it: a suffix is subscripted once it has been found, and
  `"default"` is in the table.
* `getMime_answers` — so in every interleaving `GetMime` answers what the table says.
-/

namespace CppServer.Http.MimeTypes

open Function (update update_self update_of_ne)

/-- `std::unordered_map<std::string, std::string>` -/
abbrev Map : Type := List UInt8 → Option (List UInt8)

/-- The assignments of `MimeTypes::Init`, in their order. -/
def entries : List (List UInt8 × List UInt8) :=
  [(".html", "text/html"), (".avi", "video/x-msvideo"), (".bmp", "image/bmp"),
    (".c", "text/plain"), (".doc", "application/msword"), (".gif", "image/gif"),
    (".gz", "application/x-gzip"), (".htm", "text/html"), (".ico", "image/x-icon"),
    (".jpg", "image/jpeg"), (".png", "image/png"), (".txt", "text/plain"), (".mp3", "audio/mp3"),
    ("default", "text/html")].map fun p => (ofLiteral p.1, ofLiteral p.2)

/-- `mime[key] = value` -/
def assign (p : List UInt8 × List UInt8) (mime : Map) : Map := update mime p.1 (some p.2)

/-- What `GetMime` does to the table. -/
inductive Access where
  /-- `mime.find(suffix) != mime.end()` -/
  | find (suffix : List UInt8)
  /-- `mime[key]` -/
  | subscript (key : List UInt8)
  deriving DecidableEq, Repr

/-- `"default"` -/
def defaultKey : List UInt8 := ofLiteral "default"

/-- One access: what comes next, or what `GetMime` returns. -/
def access : Access → Map → (Access ⊕ List UInt8) × Map
  | .find suffix, mime =>
      (.inl (.subscript (if (mime suffix).isSome then suffix else defaultKey)), mime)
  | .subscript key, mime =>
      match mime key with
      | some value => (.inr value, mime)
      -- a new element with an empty value
      | none => (.inr [], update mime key (some []))

/-- `MimeTypes::GetMime`, with `MimeTypes::Init` -/
def program : Once.Program Access Map (List UInt8) where
  start _ := none
  steps := entries.map assign
  Asks a := ∃ suffix, a = .find suffix
  access := access

instance : DecidablePred program.Asks
  | .find suffix => isTrue ⟨suffix, rfl⟩
  | .subscript _ => isFalse fun ⟨_, h⟩ => nomatch h

/-- What `GetMime` should return. -/
def mimeOf (suffix : List UInt8) : List UInt8 :=
  ((entries.find? fun p => p.1 = suffix).map Prod.snd).getD (ofLiteral "text/html")

/-! ## The table -/

/-- Assignments to different keys do not overwrite one another. -/
lemma foldl_assign (ps : List (List UInt8 × List UInt8)) (hps : (ps.map Prod.fst).Nodup) :
    ∀ (mime : Map) (key : List UInt8),
      ((ps.map assign).foldl (fun d f => f d) mime) key
        = ((ps.find? fun p => p.1 = key).map Prod.snd).or (mime key) := by
  induction ps with
  | nil => intro mime key; rfl
  | cons p ps ih =>
      intro mime key
      rw [List.map_cons, List.nodup_cons] at hps
      rw [List.map_cons, List.foldl_cons, ih hps.2]
      by_cases hkey : p.1 = key
      · have hnone : ps.find? (fun p => p.1 = key) = none := by
          rw [List.find?_eq_none]
          intro p' hp' heq
          refine hps.1 (List.mem_map.mpr ⟨p', hp', ?_⟩)
          rw [of_decide_eq_true heq, hkey]
        rw [hnone, List.find?_cons_of_pos (by simpa using hkey), ← hkey, assign, update_self]
        rfl
      · rw [List.find?_cons_of_neg (by simpa using hkey), assign, update_of_ne (Ne.symm hkey)]

/-- **What the table holds.** -/
theorem full_eq (key : List UInt8) :
    program.full key = (entries.find? fun p => p.1 = key).map Prod.snd := by
  have hall : program.full = (entries.map assign).foldl (fun d f => f d) fun _ => none := by
    rw [Once.Program.full, Once.Program.built, List.take_length]
    rfl
  rw [hall, foldl_assign entries (by decide +kernel), Option.or_none]

lemma full_default : program.full defaultKey = some (ofLiteral "text/html") := by
  rw [full_eq]
  decide +kernel

/-! ## The look-up -/

/-- Where a look-up gets to: the suffix, and then a key that is in the table. -/
lemma leads_cases {a b : Access} (h : program.Leads a b) :
    ∃ suffix, a = .find suffix ∧ (b = .find suffix ∨
      b = .subscript (if (program.full suffix).isSome then suffix else defaultKey)) := by
  induction h with
  | refl hasks =>
      obtain ⟨suffix, rfl⟩ := hasks
      exact ⟨suffix, rfl, .inl rfl⟩
  | next _ hnext ih =>
      obtain ⟨suffix, rfl, hb⟩ := ih
      refine ⟨suffix, rfl, ?_⟩
      rcases hb with rfl | rfl
      · exact .inr (Sum.inl.inj hnext).symm
      · exfalso
        revert hnext
        simp only [program, access]
        split <;> simp

/-- What is subscripted is in the table. -/
lemma full_subscript (suffix : List UInt8) :
    program.full (if (program.full suffix).isSome then suffix else defaultKey)
      = some (mimeOf suffix) := by
  cases hfound : program.full suffix with
  | some value =>
      rw [Option.isSome_some, if_pos rfl, hfound, mimeOf, ← full_eq, hfound]
      rfl
  | none =>
      rw [Option.isSome_none, if_neg (by simp), full_default, mimeOf, ← full_eq, hfound]
      rfl

theorem readOnly : program.ReadOnly := by
  intro a b hleads
  obtain ⟨suffix, -, rfl | rfl⟩ := leads_cases hleads
  · rfl
  · change (access (.subscript _) program.full).2 = _
    rw [access, full_subscript]

lemma answers_eq {a : Access} {r : List UInt8} (h : program.Answers a r) :
    ∃ suffix, a = .find suffix ∧ r = mimeOf suffix := by
  obtain ⟨b, hleads, hr⟩ := h
  obtain ⟨suffix, rfl, rfl | rfl⟩ := leads_cases hleads
  · simp [program, access] at hr
  · refine ⟨suffix, rfl, ?_⟩
    change (access (.subscript _) program.full).1 = .inr r at hr
    rw [access, full_subscript] at hr
    exact (Sum.inr.inj hr).symm

/-! ## The result -/

variable {τ : Type*} [DecidableEq τ] {s : Once.State τ Access Map (List UInt8)}

/-- **What `GetMime` answers.**  For any number of threads that call it and every interleaving of
their steps: each call that has returned has returned what the table of the source says for its
suffix, or the default.  No thread looks at the table before it has been filled, and from then on
it stays as it is. -/
theorem getMime_answers (hs : (Once.machine τ program).Reachable s) :
    (∀ p ∈ s.answers, ∃ suffix, p = (.find suffix, mimeOf suffix)) ∧
    (∀ t a b, s.pc t = .passed a b → s.data = program.full) ∧
    (s.control = .done → ∀ key, s.data key = (entries.find? fun p => p.1 = key).map Prod.snd) := by
  have h : Once.Inv program s := (Once.inv_inductive readOnly).reachable hs
  refine ⟨fun p hp => ?_, fun t a b hpc => h.done (h.passed t a b hpc).1, fun hdone key => ?_⟩
  · obtain ⟨suffix, ha, hr⟩ := answers_eq (h.answers p hp)
    exact ⟨suffix, Prod.ext ha hr⟩
  · rw [h.done hdone, full_eq]

/-- Two threads come at once: one fills the table, and both look up. -/
def twoThreads : List (Once.Action Bool Access) :=
  let png : Access := .find (ofLiteral ".png")
  let other : Access := .find (ofLiteral ".tar")
  [.call true png, .call false other, .begin true png] ++
    (List.range 14).map (Once.Action.init true png) ++
    [.finish true png, .pass false other, .access false other other, .access true png png,
      .access false other (.subscript defaultKey),
      .access true png (.subscript (ofLiteral ".png"))]

theorem getMime_answers_twoThreads :
    ∃ s, (Once.machine Bool program).Reachable s ∧ s.answers.length = 2 ∧
      ∀ p ∈ s.answers, ∃ suffix, p = (.find suffix, mimeOf suffix) := by
  obtain ⟨s, hs, hp⟩ := Machine.exists_reachable_of_run (m := Once.machine Bool program) rfl
    twoThreads (fun s => decide (s.answers.length = 2)) (by decide +kernel)
  exact ⟨s, hs, of_decide_eq_true hp, (getMime_answers hs).1⟩

end CppServer.Http.MimeTypes
