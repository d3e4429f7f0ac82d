import CharClass.CategorySet.Cursor
import CharClass.CategorySet.Session
import CharClass.LetterCase
import CharClass.Predicate
import CharClass.Proofs.Aggregate
import CharClass.Proofs.Alike
import CharClass.Proofs.CaseBit
import CharClass.Proofs.Caseless
import CharClass.Proofs.Classification
import CharClass.Proofs.Comparison
import CharClass.Proofs.Constructible
import CharClass.Proofs.Decoding
import CharClass.Proofs.Description
import CharClass.Proofs.Interference
import CharClass.Proofs.Items
import CharClass.Proofs.Layouts
import CharClass.Proofs.Order
import CharClass.Proofs.Tabulation
import CharClass.Proofs.Updates
import CharClass.Proofs.Walk
