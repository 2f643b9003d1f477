import EngPlatform.Lib.Acts
import EngPlatform.Usage.Ledger
import Mathlib.Data.List.Sort
import Mathlib.Logic.Function.Basic

/-!
# The inventory sweeps

A sweep claims the collector, goes on with the cursor of each region for at most five pages, puts
the builds of a page before it writes the cursor, and then puts the builds that are not complete.
Any number of sweeps interleave at their store operations, and each may stop at any of them.
-/

set_option linter.dupNamespace false

namespace Usage

variable {ι : Type}

/-! ## Time -/

def second : Int := 1000000
def day : Int := 86400 * second
def collectorInterval : Int := 900 * second

/-- The day of the month, from the days since 1970-01-01. -/
def dayOfMonth (days : Int) : Int :=
  let dayOfEra := (days + 719468) % 146097
  let yearOfEra := (dayOfEra - dayOfEra / 1460 + dayOfEra / 36524 - dayOfEra / 146096) / 365
  let dayOfYear := dayOfEra - (365 * yearOfEra + yearOfEra / 4 - yearOfEra / 100)
  dayOfYear - (153 * ((5 * dayOfYear + 2) / 153) + 2) / 5 + 1

/-- The first bound of `month_bounds` for the month of `now`. -/
def monthStart (now : Int) : Int := (now / day - (dayOfMonth (now / day) - 1)) * day

example : monthStart (1769904900 * second) = 1769904000 * second := by decide

/-! ## Sweeps -/

inductive Cursor
  | absent
  | window (since upto : Int) (token : String)
  | watermark (time : Int)
  deriving DecidableEq

/-- The window that a sweep goes on with. -/
structure Window where
  since : Int
  upto : Int
  token : String
  deriving DecidableEq

def Cursor.resume (cursor : Cursor) (now : Int) : Window :=
  match cursor with
  | .window since upto token => ⟨since, upto, token⟩
  | .watermark time => ⟨time - day, now, ""⟩
  | .absent => ⟨monthStart now, now, ""⟩

/-- What is stored after a page whose next token is `next`. -/
def Window.advance (w : Window) (next : String) : Cursor :=
  if next = "" then .watermark w.upto else .window w.since w.upto next

structure Page where
  builds : List Build
  next : String
  deriving DecidableEq

/-- `pages` is how many pages the region has left, `todo` the regions after it. -/
inductive Phase
  | idle
  | begun (now : Int)
  | region (now : Int) (todo : List Region)
  | listing (now : Int) (region : Region) (w : Window) (pages : ℕ) (todo : List Region)
  | putting (now : Int) (region : Region) (w : Window) (page : Page) (pages : ℕ)
      (todo : List Region)
  | pending (now : Int) (rows : List Row)
  deriving DecidableEq

/-- The acts of a sweep; an exception or a crash is a sweep that acts no more. -/
inductive Act (ι : Type)
  | begin (i : ι) (now : Int)
  | claim (i : ι)
  | cursor (i : ι)
  | page (i : ι) (answer : Page)
  | put (i : ι) (executions : Executions)
  | save (i : ι)
  | pending (i : ι)
  | get (i : ι) (build : Build) (executions : Executions)

/-- `first` is the start of the month of the first sweep that had the claim. -/
structure State (ι : Type) where
  nextDue : Int
  cursor : Region → Cursor
  ledger : List Row
  phase : ι → Phase
  first : Option Int

def State.start : State ι where
  nextDue := 0
  cursor _ := .absent
  ledger := []
  phase _ := .idle
  first := none

def State.Stored (s : State ι) (key : Key) : Prop := ∃ row, find s.ledger key = some row

/-- No row is lost, and what a row has reached stays. -/
def State.Keeps (s s' : State ι) : Prop :=
  ∀ key row, find s.ledger key = some row →
    ∃ row', find s'.ledger key = some row' ∧ row.Keeps row'

theorem State.Keeps.refl (s : State ι) : s.Keeps s := fun _ row h => ⟨row, h, .refl row⟩

theorem State.Keeps.trans {s s' s'' : State ι} (h : s.Keeps s') (h' : s'.Keeps s'') :
    s.Keeps s'' := by
  intro key row hr
  obtain ⟨row', hr', hk⟩ := h key row hr
  obtain ⟨row'', hr'', hk'⟩ := h' key row' hr'
  exact ⟨row'', hr'', hk.trans hk'⟩

theorem State.Keeps.stored {s s' : State ι} (h : s.Keeps s') {key : Key} (hs : s.Stored key) :
    s'.Stored key := by
  obtain ⟨row, hr⟩ := hs
  obtain ⟨row', hr', -⟩ := h key row hr
  exact ⟨row', hr'⟩

theorem putBuild_keeps {s s' : State ι} {row : Row} (hl : s'.ledger = putBuild s.ledger row)
    (h : SameLink (find s.ledger row.key) row) : s.Keeps s' := by
  intro key old ho
  rw [hl, find_putBuild]
  split
  · subst key
    rw [ho] at h ⊢
    exact ⟨_, rfl, merge_keeps h⟩
  · exact ⟨old, ho, .refl old⟩

theorem putBuild_stored {s s' : State ι} {row : Row} (hl : s'.ledger = putBuild s.ledger row) :
    s'.Stored row.key := by
  unfold State.Stored
  rw [hl, find_putBuild, if_pos rfl]
  exact ⟨_, rfl⟩

variable [DecidableEq ι]

def State.enter (s : State ι) (i : ι) (p : Phase) : State ι :=
  { s with phase := Function.update s.phase i p }

/-- The phase after the cursor of a region has been written. -/
def Phase.saved (now : Int) (region : Region) (w : Window) (next : String) (pages : ℕ)
    (todo : List Region) : Phase :=
  if next = "" ∨ pages = 0 then .region now todo
  else .listing now region { w with token := next } pages todo

def State.step (project : String) (s : State ι) : Act ι → Option (State ι)
  | .begin i now =>
    match s.phase i with
    | .idle => some (s.enter i (.begun now))
    | _ => none
  | .claim i =>
    match s.phase i with
    | .begun now =>
      if now < s.nextDue then some (s.enter i (.pending now []))
      else
        some ({ s with
          nextDue := now + collectorInterval
          first := some (s.first.getD (monthStart now)) }.enter i (.region now regions))
    | _ => none
  | .cursor i =>
    match s.phase i with
    | .region now (region :: todo) =>
      some (s.enter i (.listing now region ((s.cursor region).resume now) 5 todo))
    | _ => none
  | .page i answer =>
    match s.phase i with
    | .listing now region w (pages + 1) todo =>
      some (s.enter i (.putting now region w answer pages todo))
    | _ => none
  | .put i executions =>
    match s.phase i with
    | .putting now region w ⟨build :: builds, next⟩ pages todo =>
      match normalize project executions region build now with
      | .error _ => none
      | .ok row =>
        some ({ s with ledger := putBuild s.ledger row }.enter i
          (.putting now region w ⟨builds, next⟩ pages todo))
    | _ => none
  | .save i =>
    match s.phase i with
    | .putting now region w ⟨[], next⟩ pages todo =>
      some ({ s with cursor := Function.update s.cursor region (w.advance next) }.enter i
        (.saved now region w next pages todo))
    | _ => none
  | .pending i =>
    match s.phase i with
    | .region now [] =>
      let incomplete := s.ledger.filter fun row => ¬ row.complete
      let sorted := incomplete.mergeSort fun row row' => row.observedAt ≤ row'.observedAt
      some (s.enter i (.pending now (sorted.take 100)))
    | _ => none
  | .get i build executions =>
    match s.phase i with
    | .pending now (row :: rows) =>
      match normalize project executions row.key.region build now with
      | .error _ => none
      | .ok updated =>
        some ({ s with ledger := putBuild s.ledger updated }.enter i (.pending now rows))
    | _ => none

/-! ## The provider and the condition -/

section Listing

variable (created : Key → Option Int)
  (rest : Region → Int → Int → String → Key → Prop)

/-- `rest` has the builds of a window that a token has not listed yet; without a token, these are
all builds that are created in the window. -/
def Whole : Prop :=
  ∀ region since upto key time, created key = some time → key.region = region → since ≤ time →
    time ≤ upto → rest region since upto "" key

/-- A page of a window has the builds that its token has not listed, but for those that the next
token has not listed either. -/
def Pages (region : Region) (w : Window) (page : Page) : Prop :=
  ∀ key, rest region w.since w.upto w.token key → key.region = region →
    (∃ build ∈ page.builds, build.id = key.buildId)
      ∨ (page.next ≠ "" ∧ rest region w.since w.upto page.next key)

/-- What the provider promises of an answer. -/
def Honest (s : State ι) (a : Act ι) : Prop :=
  ∀ i page, a = .page i page → ∀ now region w pages todo,
    s.phase i = .listing now region w pages todo → Pages rest region w page

end Listing

/-- A sweep that finds no cursor is in the month of the first sweep, or an earlier one. -/
def Opens (s : State ι) (a : Act ι) : Prop :=
  ∀ i now region todo, a = .cursor i → s.phase i = .region now (region :: todo) →
    s.cursor region = .absent → ∀ first, s.first = some first → monthStart now ≤ first

/-- A row that is put over a linked one has no link, or the same one. -/
def Links (project : String) (s : State ι) (a : Act ι) : Prop :=
  (∀ i executions now region w build builds next pages todo row, a = .put i executions →
    s.phase i = .putting now region w ⟨build :: builds, next⟩ pages todo →
    normalize project executions region build now = .ok row →
    SameLink (find s.ledger row.key) row)
  ∧ ∀ i build executions now old rows row, a = .get i build executions →
    s.phase i = .pending now (old :: rows) →
    normalize project executions old.key.region build now = .ok row →
    SameLink (find s.ledger row.key) row

/-! ## What a step keeps -/

section Covered

variable (created : Key → Option Int) (rest : Region → Int → Int → String → Key → Prop)

/-- Of the builds that a region has from `first` on and up to the end of the window, all are stored
but for those that the window still has to list. -/
def Justified (stored : Key → Prop) (first : Int) (region : Region) (w : Window)
    (remaining : Key → Prop) : Prop :=
  ∀ key time, created key = some time → key.region = region → first ≤ time → time ≤ w.upto →
    stored key ∨ (w.since ≤ time ∧ remaining key)

def Cursor.Holds (stored : Key → Prop) (first : Int) (region : Region) : Cursor → Prop
  | .absent => True
  | .window since upto token =>
    Justified created stored first region ⟨since, upto, token⟩ (rest region since upto token)
  | .watermark time =>
    ∀ key t, created key = some t → key.region = region → first ≤ t → t ≤ time → stored key

/-- What the page of a sweep still has to put, or to list after it. -/
def Page.remaining (region : Region) (w : Window) (page : Page) (key : Key) : Prop :=
  (∃ build ∈ page.builds, build.id = key.buildId)
    ∨ (page.next ≠ "" ∧ rest region w.since w.upto page.next key)

def Phase.Holds (stored : Key → Prop) (first : Int) : Phase → Prop
  | .listing _ r w .. => Justified created stored first r w (rest r w.since w.upto w.token)
  | .putting _ r w page .. => Justified created stored first r w (page.remaining rest r w)
  | _ => True

/-- A phase of a sweep that has not read a cursor. -/
def Phase.Early : Phase → Prop
  | .idle | .begun _ => True
  | .pending _ rows => rows = []
  | _ => False

structure State.Inv (s : State ι) : Prop where
  unopened : s.first = none → (∀ i, (s.phase i).Early) ∧ ∀ region, s.cursor region = .absent
  cursor : ∀ first, s.first = some first → ∀ region,
    (s.cursor region).Holds created rest s.Stored first region
  phase : ∀ first, s.first = some first → ∀ i, (s.phase i).Holds created rest s.Stored first

/-- A watermark covers the builds of its region since the first sweep. -/
def State.Covered (s : State ι) : Prop :=
  ∀ first, s.first = some first → ∀ region time, s.cursor region = .watermark time →
    ∀ key t, created key = some t → key.region = region → first ≤ t → t ≤ time → s.Stored key

variable {created rest}

theorem Justified.mono {stored stored' : Key → Prop} {first : Int} {region : Region} {w : Window}
    {remaining remaining' : Key → Prop}
    (h : Justified created stored first region w remaining) (hs : ∀ key, stored key → stored' key)
    (hr : ∀ key, key.region = region → remaining key → stored' key ∨ remaining' key) :
    Justified created stored' first region w remaining' := by
  intro key time hc hk hf hu
  rcases h key time hc hk hf hu with h | ⟨hw, h⟩
  · exact .inl (hs key h)
  · exact (hr key hk h).imp id fun h => ⟨hw, h⟩

theorem Cursor.Holds.mono {stored stored' : Key → Prop} {first : Int} {region : Region}
    {cursor : Cursor} (h : cursor.Holds created rest stored first region)
    (hs : ∀ key, stored key → stored' key) :
    cursor.Holds created rest stored' first region := by
  cases cursor with
  | absent => trivial
  | window since upto token => exact Justified.mono h hs fun _ _ => .inr
  | watermark time => exact fun key t hc hk hf ht => hs key (h key t hc hk hf ht)

theorem Phase.Holds.mono {stored stored' : Key → Prop} {first : Int} {p : Phase}
    (h : p.Holds created rest stored first) (hs : ∀ key, stored key → stored' key) :
    p.Holds created rest stored' first := by
  cases p with
  | listing => exact Justified.mono h hs fun _ _ => .inr
  | putting => exact Justified.mono h hs fun _ _ => .inr
  | idle | begun | region | pending => trivial

/-- A step that keeps the rows, the cursors and the first sweep, and moves one sweep on. -/
theorem State.Inv.move {s s' : State ι} {i : ι} {p : Phase} (hi : s.Inv created rest)
    (hf : s'.first = s.first) (hc : s'.cursor = s.cursor) (hk : s.Keeps s')
    (hp : s'.phase = Function.update s.phase i p)
    (hearly : (s.phase i).Early → p.Early)
    (hhold : ∀ first, s.first = some first → (s.phase i).Holds created rest s.Stored first →
      p.Holds created rest s'.Stored first) : s'.Inv created rest := by
  have hst : ∀ key, s.Stored key → s'.Stored key := fun _ => hk.stored
  refine ⟨fun hn => ?_, fun first h region => ?_, fun first h j => ?_⟩
  · obtain ⟨h1, h2⟩ := hi.unopened (hf ▸ hn)
    refine ⟨fun j => ?_, hc ▸ h2⟩
    rw [hp]
    by_cases hj : j = i
    · subst hj
      rw [Function.update_self]
      exact hearly (h1 j)
    · rw [Function.update_of_ne hj]
      exact h1 j
  · rw [hc]
    exact (hi.cursor first (hf ▸ h) region).mono hst
  · rw [hp]
    by_cases hj : j = i
    · subst hj
      rw [Function.update_self]
      exact hhold first (hf ▸ h) (hi.phase first (hf ▸ h) j)
    · rw [Function.update_of_ne hj]
      exact (hi.phase first (hf ▸ h) j).mono hst

theorem resume_holds {stored : Key → Prop} {first now : Int} {region : Region} {cursor : Cursor}
    (hw : Whole created rest) (h : cursor.Holds created rest stored first region)
    (hopen : cursor = .absent → monthStart now ≤ first) :
    Justified created stored first region (cursor.resume now)
      (rest region (cursor.resume now).since (cursor.resume now).upto
        (cursor.resume now).token) := by
  cases cursor with
  | absent =>
    intro key time hc hk hf hu
    have hs : monthStart now ≤ time := by
      have := hopen rfl
      omega
    exact .inr ⟨hs, hw region _ _ key time hc hk hs hu⟩
  | window since upto token => exact h
  | watermark time =>
    intro key t hc hk hf hu
    by_cases ht : t ≤ time
    · exact .inl (h key t hc hk hf ht)
    · have hs : time - Usage.day ≤ t := by
        have : (0 : Int) ≤ Usage.day := by decide
        omega
      exact .inr ⟨hs, hw region _ _ key t hc hk hs hu⟩

theorem page_holds {stored : Key → Prop} {first : Int} {region : Region} {w : Window} {page : Page}
    (hp : Pages rest region w page)
    (h : Justified created stored first region w (rest region w.since w.upto w.token)) :
    Justified created stored first region w (page.remaining rest region w) :=
  h.mono (fun _ => id) fun key hk hr => .inr (hp key hr hk)

/-- The head of the page is stored, and leaves the rest of the page. -/
theorem put_holds {stored stored' : Key → Prop} {first : Int} {region : Region} {w : Window}
    {build : Build} {builds : List Build} {next : String}
    (h : Justified created stored first region w
      (Page.remaining rest region w ⟨build :: builds, next⟩))
    (hs : ∀ key, stored key → stored' key) (hnew : stored' ⟨region, build.id⟩) :
    Justified created stored' first region w (Page.remaining rest region w ⟨builds, next⟩) := by
  refine h.mono hs fun key hk hr => ?_
  rcases hr with ⟨b, hm, hb⟩ | hr
  · rcases List.mem_cons.1 hm with rfl | hm
    · refine .inl ?_
      rw [show key = ⟨region, b.id⟩ by rw [hb, ← hk]]
      exact hnew
    · exact .inr (.inl ⟨b, hm, hb⟩)
  · exact .inr (.inr hr)

/-- A page whose builds are all put leaves what the next token lists. -/
theorem save_holds {stored : Key → Prop} {first : Int} {region : Region} {w : Window}
    {next : String}
    (h : Justified created stored first region w (Page.remaining rest region w ⟨[], next⟩)) :
    (w.advance next).Holds created rest stored first region
      ∧ (next ≠ "" → Justified created stored first region { w with token := next }
        (rest region w.since w.upto next)) := by
  have hnext : next ≠ "" → Justified created stored first region { w with token := next }
      (rest region w.since w.upto next) := fun _ =>
    fun key time hc hk hf hu => (h key time hc hk hf hu).imp id fun ⟨hs, hr⟩ =>
      ⟨hs, (hr.resolve_left fun ⟨_, hm, _⟩ => nomatch hm).2⟩
  refine ⟨?_, hnext⟩
  unfold Window.advance
  split
  · rename_i he
    intro key time hc hk hf hu
    refine (h key time hc hk hf hu).resolve_right ?_
    rintro ⟨-, ⟨b, hm, -⟩ | ⟨hne, -⟩⟩
    · cases hm
    · exact hne he
  · exact hnext ‹_›

variable {project : String}

/-- What the condition and the provider ask of an act. -/
def Sound (rest : Region → Int → Int → String → Key → Prop) (project : String) (s : State ι)
    (a : Act ι) : Prop :=
  Honest rest s a ∧ Opens s a ∧ Links project s a

theorem step_keeps {s s' : State ι} {a : Act ι} (h : s.step project a = some s')
    (hl : Links project s a) : s.Keeps s' := by
  cases a with
  | put i executions =>
    simp only [State.step] at h
    split at h
    case h_2 => cases h
    rename_i now region w build builds next pages todo hph
    split at h <;> cases h
    rename_i row hn
    exact putBuild_keeps rfl (hl.1 i executions now region w build builds next pages todo row
      rfl hph hn)
  | get i build executions =>
    simp only [State.step] at h
    split at h
    case h_2 => cases h
    rename_i now old rows hph
    split at h <;> cases h
    rename_i row hn
    exact putBuild_keeps rfl (hl.2 i build executions now old rows row rfl hph hn)
  | claim i =>
    simp only [State.step] at h
    split at h
    case h_2 => cases h
    split at h <;> cases h <;> exact .refl s
  | begin | cursor | page | save | pending =>
    simp only [State.step] at h
    split at h <;> cases h
    exact .refl s

theorem claim_inv {s : State ι} {i : ι} {now : Int} (hph : s.phase i = .begun now)
    (hi : s.Inv created rest) : State.Inv created rest ({ s with
      nextDue := now + collectorInterval
      first := some (s.first.getD (monthStart now)) }.enter i (.region now regions)) := by
  have hphase : ∀ first, (∀ j, (s.phase j).Holds created rest s.Stored first) →
      ∀ j, (Function.update s.phase i (.region now regions) j).Holds created rest s.Stored first := by
    intro first h j
    by_cases hj : j = i
    · subst hj
      rw [Function.update_self]
      trivial
    · rw [Function.update_of_ne hj]
      exact h j
  refine ⟨nofun, ?_, ?_⟩
  · rintro first ⟨⟩ region
    cases hf : s.first with
    | none =>
      have := (hi.unopened hf).2 region
      simp only [State.enter, this]
      trivial
    | some f => exact hi.cursor f hf region
  · rintro first ⟨⟩
    cases hf : s.first with
    | none =>
      refine hphase _ fun j => ?_
      have he := (hi.unopened hf).1 j
      cases hj : s.phase j with
      | idle | begun | pending | region => trivial
      | listing | putting =>
        rw [hj] at he
        exact he.elim
    | some f => exact hphase f (hi.phase f hf)

theorem save_inv {s : State ι} {i : ι} {now : Int} {region : Region} {w : Window} {next : String}
    {pages : ℕ} {todo : List Region}
    (hph : s.phase i = .putting now region w ⟨[], next⟩ pages todo) (hi : s.Inv created rest) :
    State.Inv created rest ({ s with
      cursor := Function.update s.cursor region (w.advance next) }.enter i
        (.saved now region w next pages todo)) := by
  have hold : ∀ first, s.first = some first → Justified created s.Stored first region w
      (Page.remaining rest region w ⟨[], next⟩) := by
    intro first hf
    have := hi.phase first hf i
    rw [hph] at this
    exact this
  refine ⟨fun hn => ?_, fun first hf r => ?_, fun first hf j => ?_⟩
  · have := (hi.unopened hn).1 i
    rw [hph] at this
    exact this.elim
  · show (Function.update s.cursor region (w.advance next) r).Holds created rest s.Stored first r
    by_cases hr : r = region
    · subst hr
      rw [Function.update_self]
      exact (save_holds (hold first hf)).1
    · rw [Function.update_of_ne hr]
      exact hi.cursor first hf r
  · show (Function.update s.phase i (.saved now region w next pages todo) j).Holds created rest
      s.Stored first
    by_cases hj : j = i
    · subst hj
      rw [Function.update_self]
      unfold Phase.saved
      split
      · trivial
      · rename_i hne
        exact (save_holds (hold first hf)).2 fun he => hne (.inl he)
    · rw [Function.update_of_ne hj]
      exact hi.phase first hf j

theorem step_inv {s s' : State ι} {a : Act ι} (h : s.step project a = some s')
    (hw : Whole created rest) (hs : Sound rest project s a) (hi : s.Inv created rest) :
    s'.Inv created rest := by
  obtain ⟨hhonest, hopen, hlinks⟩ := hs
  have hkeeps := step_keeps h hlinks
  cases a with
  | begin i now =>
    simp only [State.step] at h
    split at h <;> cases h
    exact hi.move rfl rfl hkeeps rfl (fun _ => trivial) fun _ _ _ => trivial
  | claim i =>
    simp only [State.step] at h
    split at h
    case h_2 => cases h
    rename_i now hph
    split at h <;> cases h
    · exact hi.move rfl rfl hkeeps rfl (fun _ => rfl) fun _ _ _ => trivial
    · exact claim_inv hph hi
  | cursor i =>
    simp only [State.step] at h
    split at h <;> cases h
    rename_i now region todo hph
    refine hi.move rfl rfl hkeeps rfl (fun he => by rw [hph] at he; exact he) fun first hf _ => ?_
    exact resume_holds hw (hi.cursor first hf region) fun ha =>
      hopen i now region todo rfl hph ha first hf
  | page i answer =>
    simp only [State.step] at h
    split at h <;> cases h
    rename_i now region w pages todo hph
    refine hi.move rfl rfl hkeeps rfl (fun he => by rw [hph] at he; exact he) fun first hf hp => ?_
    rw [hph] at hp
    exact page_holds (hhonest i answer rfl now region w (pages + 1) todo hph) hp
  | put i executions =>
    simp only [State.step] at h
    split at h
    case h_2 => cases h
    rename_i now region w build builds next pages todo hph
    split at h <;> cases h
    rename_i row hn
    refine hi.move rfl rfl hkeeps rfl (fun he => by rw [hph] at he; exact he) fun first hf hp => ?_
    rw [hph] at hp
    exact put_holds hp (fun _ => hkeeps.stored) (normalize_key hn ▸ putBuild_stored (s := s) rfl)
  | save i =>
    simp only [State.step] at h
    split at h <;> cases h
    rename_i now region w next pages todo hph
    exact save_inv hph hi
  | pending i =>
    simp only [State.step] at h
    split at h <;> cases h
    rename_i now hph
    exact hi.move rfl rfl hkeeps rfl (fun he => by rw [hph] at he; exact he.elim)
      fun _ _ _ => trivial
  | get i build executions =>
    simp only [State.step] at h
    split at h
    case h_2 => cases h
    rename_i now old rows hph
    split at h <;> cases h
    exact hi.move rfl rfl hkeeps rfl (fun he => by rw [hph] at he; cases he) fun _ _ _ => trivial

omit [DecidableEq ι] in
theorem Inv.start : (State.start : State ι).Inv created rest :=
  ⟨fun _ => ⟨fun _ => trivial, fun _ => rfl⟩, nofun, nofun⟩

omit [DecidableEq ι] in
theorem State.Inv.covered {s : State ι} (hi : s.Inv created rest) : s.Covered created := by
  intro first hf region time hc
  have := hi.cursor first hf region
  rw [hc] at this
  exact this

theorem run_inv {acts : List (Act ι)} {s s' : State ι} (hw : Whole created rest)
    (h : Acts.run (State.step project) s acts = some s')
    (hs : Acts.Each (State.step project) (Sound rest project) s acts)
    (hi : s.Inv created rest) : s'.Inv created rest ∧ s.Keeps s' := by
  induction acts generalizing s with
  | nil =>
    cases h
    exact ⟨hi, .refl _⟩
  | cons a acts ih =>
    obtain ⟨s₁, h₁, h⟩ := Option.bind_eq_some_iff.1 ((Acts.run_cons s a acts).symm.trans h)
    obtain ⟨ha, hs⟩ := (Acts.each_cons h₁).1 hs
    obtain ⟨hi', hk⟩ := ih h hs (step_inv h₁ hw ha hi)
    exact ⟨hi', (step_keeps h₁ ha.2.2).trans hk⟩

/-- Where every sweep that opens a cursor is in the month of the first sweep and no row is put over
one with another link, a watermark covers every build of its region since then, a complete row
stays complete and a linked one keeps its link. -/
theorem checkpoints_cover {acts acts' : List (Act ι)} {s s' : State ι} (hw : Whole created rest)
    (h : Acts.run (State.step project) .start acts = some s)
    (h' : Acts.run (State.step project) s acts' = some s')
    (hs : Acts.Each (State.step project) (Sound rest project) .start (acts ++ acts')) :
    s.Covered created ∧ s'.Covered created ∧ s.Keeps s' := by
  obtain ⟨hs₁, hs₂⟩ := (Acts.each_append h).1 hs
  obtain ⟨hi, -⟩ := run_inv hw h hs₁ Inv.start
  obtain ⟨hi', hk⟩ := run_inv hw h' hs₂ hi
  exact ⟨hi.covered, hi'.covered, hk⟩

end Covered

/-! ## A month that is skipped -/

/-- One build, on 2026-01-15. -/
def demoCreated (key : Key) : Option Int :=
  if key = ⟨.usCentral1, "b"⟩ then some (1768435200 * second) else none

def demoRest (_ : Region) (since upto : Int) (token : String) (key : Key) : Prop :=
  token = "" ∧ ∃ time, demoCreated key = some time ∧ since ≤ time ∧ time ≤ upto

theorem demoRest_whole : Whole demoCreated demoRest :=
  fun _ _ _ _ time hc _ hs hu => ⟨rfl, time, hc, hs, hu⟩

theorem demoCreated_some {key : Key} {time : Int} (h : demoCreated key = some time) :
    key = ⟨.usCentral1, "b"⟩ ∧ time = 1768435200 * second := by
  unfold demoCreated at h
  split at h <;> cases h
  exact ⟨‹_›, rfl⟩

def demoBuild : Build where
  id := "b"
  projectId := none
  name := none
  status := "SUCCESS"
  createTime := 1768435200 * second
  startTime := some (1768435200 * second)
  finishTime := some (1768435260 * second)
  deploymentId := ""
  executionId := ""
  requestFingerprint := ""
  serviceName := ""
  repository := ""
  sourceRepository := ""
  sourceRevision := ""

/-- 2026-01-31T23:50:00Z and 2026-02-01T00:15:00Z. -/
def demoJanuary : Int := 1769903400 * second
def demoFebruary : Int := 1769904900 * second

def demoActs : List (Act Bool) :=
  [.begin false demoJanuary, .claim false, .cursor false, .page false ⟨[demoBuild], ""⟩,
    .put false fun _ _ => none, .save false]

def demoSkip : List (Act Bool) :=
  [.begin false demoJanuary, .claim false, .cursor false, .begin true demoFebruary, .claim true,
    .cursor true, .page true ⟨[], ""⟩, .save true]

section Others

variable {rest : Region → Int → Int → String → Key → Prop} {project : String} {s : State ι}
  {a : Act ι}

omit [DecidableEq ι] in
theorem honest_of_ne (h : ∀ i page, a ≠ .page i page) : Honest rest s a :=
  fun i page ha => absurd ha (h i page)

omit [DecidableEq ι] in
theorem opens_of_ne (h : ∀ i, a ≠ .cursor i) : Opens s a := fun i _ _ _ ha => absurd ha (h i)

omit [DecidableEq ι] in
theorem links_of_ne (h : ∀ i executions, a ≠ .put i executions)
    (h' : ∀ i build executions, a ≠ .get i build executions) : Links project s a :=
  ⟨fun i executions _ _ _ _ _ _ _ _ _ ha => absurd ha (h i executions),
    fun i build executions _ _ _ _ ha => absurd ha (h' i build executions)⟩

end Others

theorem checkpoints_cover_demo : ∃ s : State Bool,
    Acts.run (State.step "project") .start demoActs = some s ∧ s.Covered demoCreated := by
  obtain ⟨s, hs⟩ : ∃ s, Acts.run (State.step "project") (.start : State Bool) demoActs = some s :=
    ⟨_, rfl⟩
  have hnil : Acts.run (State.step "project") s [] = some s := rfl
  refine ⟨s, hs, (checkpoints_cover demoRest_whole hs hnil ?_).1⟩
  rw [List.append_nil]
  refine (Acts.each_cons rfl).2
    ⟨⟨honest_of_ne nofun, opens_of_ne (by simp), links_of_ne (by simp) (by simp)⟩, ?_⟩
  refine (Acts.each_cons rfl).2
    ⟨⟨honest_of_ne nofun, opens_of_ne (by simp), links_of_ne (by simp) (by simp)⟩, ?_⟩
  refine (Acts.each_cons rfl).2 ⟨⟨honest_of_ne nofun, ?_, links_of_ne (by simp) (by simp)⟩, ?_⟩
  · rintro _ _ _ _ ⟨⟩ hph - first hf
    obtain ⟨rfl, -⟩ := Phase.region.inj hph
    cases hf
    decide
  refine (Acts.each_cons rfl).2 ⟨⟨?_, opens_of_ne (by simp), links_of_ne (by simp) (by simp)⟩, ?_⟩
  · rintro _ _ ⟨⟩ now region w pages todo hph key ⟨-, time, hc, -⟩ -
    obtain ⟨rfl, -⟩ := demoCreated_some hc
    exact .inl ⟨demoBuild, .head _, rfl⟩
  refine (Acts.each_cons rfl).2 ⟨⟨honest_of_ne nofun, opens_of_ne (by simp), ?_⟩, ?_⟩
  · refine ⟨?_, fun _ _ _ _ _ _ _ ha => nomatch ha⟩
    rintro _ _ _ _ _ _ _ _ _ _ row ⟨⟩ - - r hr -
    cases hr
  exact (Acts.each_cons rfl).2
    ⟨⟨honest_of_ne nofun, opens_of_ne (by simp), links_of_ne (by simp) (by simp)⟩, trivial⟩

/-- The first sweep stops at its first page, and the next one, in February, opens the cursor: its
watermark skips the build of January. -/
theorem month_skipped : ∃ s : State Bool,
    Acts.run (State.step "project") .start demoSkip = some s
      ∧ Acts.Each (State.step "project") (Honest demoRest) .start demoSkip
      ∧ ¬ s.Covered demoCreated := by
  refine ⟨_, rfl, ?_, fun h => ?_⟩
  · refine (Acts.each_cons rfl).2 ⟨honest_of_ne nofun, ?_⟩
    refine (Acts.each_cons rfl).2 ⟨honest_of_ne nofun, ?_⟩
    refine (Acts.each_cons rfl).2 ⟨honest_of_ne nofun, ?_⟩
    refine (Acts.each_cons rfl).2 ⟨honest_of_ne nofun, ?_⟩
    refine (Acts.each_cons rfl).2 ⟨honest_of_ne nofun, ?_⟩
    refine (Acts.each_cons rfl).2 ⟨honest_of_ne nofun, ?_⟩
    refine (Acts.each_cons rfl).2 ⟨?_, (Acts.each_cons rfl).2 ⟨honest_of_ne nofun, trivial⟩⟩
    rintro _ _ ⟨⟩ now region w pages todo hph key ⟨-, time, hc, hs, -⟩ -
    obtain ⟨-, -, rfl, -⟩ := Phase.listing.inj hph
    obtain ⟨-, rfl⟩ := demoCreated_some hc
    exact absurd hs (by decide)
  · obtain ⟨row, hr⟩ := h _ rfl .usCentral1 demoFebruary rfl ⟨.usCentral1, "b"⟩
      (1768435200 * second) rfl rfl (by decide) (by decide)
    cases hr

end Usage
