import ExactPoly.Main
import ExactPoly.Proofs.Coeff.Exactness
import ExactPoly.Proofs.Poly.Expression
import ExactPoly.Proofs.Poly.Sum
import ExactPoly.Proofs.Poly.ProductOrder
import ExactPoly.Proofs.Division.InRange
import ExactPoly.Proofs.Calculator.Faults
import ExactPoly.Proofs.Calculator.Reference
import ExactPoly.Proofs.Calculator.Dump
import ExactPoly.Proofs.CommandLine.Verbosity
import ExactPoly.Proofs.Coeff.Order
import ExactPoly.Proofs.Poly.Calculus
import ExactPoly.Proofs.Calculator.Composition
import ExactPoly.Proofs.Text.Meaning
import ExactPoly.Proofs.Calculator.Address
import ExactPoly.Proofs.Poly.SingleTerm
import ExactPoly.Proofs.Poly.Insertion
import ExactPoly.Proofs.Text.Trapping
import ExactPoly.Proofs.Text.Rejection
